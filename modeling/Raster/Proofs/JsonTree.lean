import Raster.Json.Document
import Raster.Proofs.Optional

/-!
# Reading JSON without limits

A decoder reads plain data within a depth. Without the limits every value denotes a tree, and the
limited reading gives that tree or nothing.
-/

namespace Raster

namespace Json

/-! ## Trees -/

/-- What a number denotes, however large it is. -/
def Number.tree (n : Number) : Datum :=
  match n.nat? with
  | some n => .nat n
  | none => .number

/-- The text that a string denotes; without characters it denotes nothing, as `null` does. -/
def textTree (s : Option String) : Datum := s.elim .null .text

/-- The tree that a value denotes. -/
def tree : Json → Datum
  | null => .null
  | bool b => .bool b
  | number n => n.tree
  | string s => textTree s
  | list items => .list (items.map tree)
  | object members => .table (members.map fun m => (textTree m.1, tree m.2))
decreasing_by
  · decreasing_tactic
  · have hsize := List.sizeOf_lt_of_mem ‹m ∈ members›
    obtain ⟨key, value⟩ := m
    simp only [Prod.mk.sizeOf_spec, object.sizeOf_spec] at hsize ⊢
    omega

/-- Whether a value is plain data within this depth. -/
def isPlain (depth : Nat) (j : Json) : Bool := (j.datum? depth).isSome

theorem isPlain_bool (depth : Nat) (b : Bool) : (bool b).isPlain depth = true := by
  rw [isPlain, datum?]
  rfl

/-- Numbers are plain data if they are words or within the range of double-precision numbers. -/
theorem isPlain_number (depth : Nat) (n : Number) :
    (number n).isPlain depth = (n.nat?.isSome || !n.isTooLarge) := by
  rw [isPlain, datum?, Number.datum?]
  cases n.nat? <;> cases n.isTooLarge <;> rfl

theorem isPlain_nat (depth : Nat) {n : Nat} (h : n < Word.bound) :
    (nat n).isPlain depth = true := by
  rw [nat, isPlain_number, Number.nat?, if_pos h]
  rfl

theorem isPlain_string (depth : Nat) (s : Option String) :
    (string s).isPlain depth = s.isSome := by
  rw [isPlain, datum?, Option.isSome_map]

theorem isPlain_text (depth : Nat) (s : String) : (text s).isPlain depth = true :=
  isPlain_string depth (some s)

theorem isSome_member? (depth : Nat) (m : Option String × Json) :
    (datum?.member? depth m).isSome = (m.1.isSome && m.2.isPlain depth) := by
  obtain ⟨key, value⟩ := m
  cases key <;> cases h : value.datum? depth <;> simp [datum?.member?, isPlain, h]

theorem isPlain_list (depth : Nat) (items : List Json) :
    (list items).isPlain (depth + 1) = items.all (isPlain depth) := by
  rw [isPlain, datum?, Option.isSome_map, isSome_mapM]
  rfl

theorem isPlain_object (depth : Nat) (members : List (Option String × Json)) :
    (object members).isPlain (depth + 1) =
      members.all fun m => m.1.isSome && m.2.isPlain depth := by
  rw [isPlain, datum?, Option.isSome_map, isSome_mapM]
  exact congrArg members.all (funext (isSome_member? depth))

theorem isPlain_record (depth : Nat) (members : List (String × Json)) :
    (record members).isPlain (depth + 1) = members.all fun m => m.2.isPlain depth := by
  rw [record, isPlain_object, List.all_map]
  rfl

theorem Number.datum?_eq_some_tree {n : Number} (h : n.datum?.isSome) : n.datum? = some n.tree := by
  unfold datum? at h ⊢
  unfold tree
  cases hn : n.nat? with
  | some m => rfl
  | none =>
      rw [hn] at h
      cases hlarge : n.isTooLarge with
      | false => rfl
      | true => simp [hlarge] at h

theorem datum?_eq_some_tree (depth : Nat) (j : Json) (h : j.isPlain depth = true) :
    j.datum? depth = some j.tree := by
  match depth, j with
  | _, null | _, bool b => rw [datum?, tree]
  | _, number n =>
      rw [isPlain, datum?] at h
      rw [datum?, tree, n.datum?_eq_some_tree h]
  | _, string none => rw [isPlain, datum?] at h; cases h
  | _, string (some s) => rw [datum?, tree]; rfl
  | 0, list items | 0, object members => rw [isPlain, datum?] at h; cases h
  | depth + 1, list items =>
      rw [isPlain_list, List.all_eq_true] at h
      rw [datum?, tree, mapM_eq_some_map fun j hj => datum?_eq_some_tree depth j (h j hj)]
      rfl
  | depth + 1, object members =>
      rw [isPlain_object, List.all_eq_true] at h
      have hmember : ∀ m ∈ members, datum?.member? depth m = some (textTree m.1, tree m.2) := by
        intro m hm
        obtain ⟨hkey, hvalue⟩ := Bool.and_eq_true_iff.mp (h m hm)
        obtain ⟨key, hkey⟩ := Option.isSome_iff_exists.mp hkey
        rw [datum?.member?, hkey, datum?_eq_some_tree depth m.2 hvalue]
        rfl
      rw [datum?, tree, mapM_eq_some_map hmember]
      rfl

theorem datum?_eq_ite (depth : Nat) (j : Json) :
    j.datum? depth = if j.isPlain depth then some j.tree else none := by
  split
  · exact datum?_eq_some_tree depth j ‹_›
  · exact Option.not_isSome_iff_eq_none.mp ‹_›

/-! ## Documents -/

end Json

namespace Document

variable {δ ε α : Type}

theorem find?_map (v : δ → ε) (fields : List (String × δ)) (name : String) :
    find? (fields.map fun m => (m.1, v m.2)) name = (find? fields name).map (Option.map v) := by
  rw [find?, find?, List.filter_map]
  simp only [Function.comp_def]
  generalize fields.filter _ = found
  rcases found with _ | ⟨m, _ | ⟨next, rest⟩⟩ <;> rfl

theorem find?_eq_some_some {fields : List (String × δ)} {name : String} {value : δ} :
    find? fields name = some (some value) ↔ fields.filter (·.1 == name) = [(name, value)] := by
  constructor
  · intro h
    unfold find? at h
    split at h
    · cases h
    · rename_i key found hfilter
      cases h
      have hkey : (key, value) ∈ fields.filter (·.1 == name) := hfilter ▸ List.mem_singleton_self _
      have hname : key = name := eq_of_beq (List.mem_filter.mp hkey).2
      rw [hfilter, hname]
    · cases h
  · intro h
    rw [find?, h]

theorem exists_find? {fields : List (String × δ)} {name : String}
    (h : (fields.filter (·.1 == name)).length = 1) :
    ∃ value, find? fields name = some (some value) := by
  obtain ⟨⟨key, value⟩, hm⟩ := List.length_eq_one_iff.mp h
  exact ⟨value, by rw [find?, hm]⟩

/-- Fields may be seen in another way before they are decoded or while they are. -/
theorem required?_map (v : δ → ε) (fields : List (String × δ)) (name : String)
    (decode : ε → Option α) :
    required? (fields.map fun m => (m.1, v m.2)) name decode =
      required? fields name fun d => decode (v d) := by
  rw [required?, required?, find?_map]
  rcases find? fields name with _ | _ | d <;> rfl

theorem optional?_map (v : δ → ε) (fields : List (String × δ)) (name : String)
    (decode : ε → Option α) (missing : α) :
    optional? (fields.map fun m => (m.1, v m.2)) name decode missing =
      optional? fields name (fun d => decode (v d)) missing := by
  rw [optional?, optional?, find?_map]
  rcases find? fields name with _ | _ | d <;> rfl

end Document

namespace Json

/-- A value that is read without limits. -/
structure Boundless where
  value : Json

/-- The limits concern only the rest of a tagged record. -/
instance : Document Boundless where
  fields? names b :=
    (Document.fields? names (Part.mk 1 b.value)).map (·.map fun m => (m.1, ⟨m.2.value⟩))
  tagged? tag cases
    | ⟨object members⟩ =>
      match members.filter (·.1 == some tag) with
      | [(_, string (some name))] =>
        if name ∈ cases then some (name, tree (object (members.filter (·.1 != some tag))))
        else none
      | _ => none
    | ⟨list (string (some name) :: items)⟩ =>
      if name ∈ cases then some (name, tree (list items)) else none
    | _ => none
  name? names b := Document.name? names (Part.mk 1 b.value)
  items? b := (Document.items? (Part.mk 1 b.value)).map (·.map fun part => ⟨part.value⟩)
  text? b := Document.text? (Part.mk 1 b.value)
  nat? b := Document.nat? (Part.mk 1 b.value)
  bool? b := Document.bool? (Part.mk 1 b.value)

theorem isPlain_untagged {members : List (Option String × Json)} {tag name : String}
    {key : Option String} (h : members.filter (·.1 == some tag) = [(key, string (some name))])
    (depth : Nat) :
    (object (members.filter (·.1 != some tag))).isPlain (depth + 1) =
      (object members).isPlain (depth + 1) := by
  rw [isPlain_object, isPlain_object, Bool.eq_iff_iff, List.all_eq_true, List.all_eq_true]
  refine ⟨fun hrest m hm => ?_, fun hall m hm => hall m (List.mem_filter.mp hm).1⟩
  by_cases htag : m.1 == some tag
  · have hmem : m ∈ members.filter (·.1 == some tag) := List.mem_filter.mpr ⟨hm, htag⟩
    rw [h, List.mem_singleton] at hmem
    subst hmem
    rw [eq_of_beq htag, ← text, isPlain_text]
    rfl
  · exact hrest m (List.mem_filter.mpr ⟨hm, by simpa using htag⟩)

theorem tagged?_part (tag : String) (cases : List String) (depth : Nat) (j : Json) :
    Document.tagged? tag cases (Part.mk depth j) =
      if j.isPlain depth then Document.tagged? tag cases (Boundless.mk j) else none := by
  have hlimit (p : Bool) (name : String) (rest : Datum) :
      ((if p then some rest else none : Option Datum) >>= fun rest =>
        if name ∈ cases then some (name, rest) else none) =
      if p then if name ∈ cases then some (name, rest) else none else none := by
    cases p <;> rfl
  cases depth with
  | zero => cases j <;> simp [Document.tagged?, isPlain, datum?]
  | succ depth =>
      cases j with
      | list items =>
          rcases items with _ | ⟨_ | _ | _ | (_ | name) | _ | _, items⟩
          case cons.string.some =>
              have htag : (list (string (some name) :: items)).isPlain (depth + 1) =
                  (list items).isPlain (depth + 1) := by
                rw [isPlain_list, isPlain_list, List.all_cons, ← text, isPlain_text, Bool.true_and]
              simp only [Document.tagged?, datum?_eq_ite, htag]
              exact hlimit _ _ _
          all_goals simp [Document.tagged?]
      | object members =>
          simp only [Document.tagged?]
          generalize hfound : members.filter (·.1 == some tag) = found
          rcases found with _ | ⟨⟨key, value⟩, _ | ⟨next, rest⟩⟩
          · exact (ite_self none).symm
          · rcases value with _ | _ | _ | (_ | name) | _ | _
            case string.some =>
              simp only [← isPlain_untagged hfound, datum?_eq_ite]
              exact hlimit _ _ _
            all_goals exact (ite_self none).symm
          · simp
      | _ => simp [Document.tagged?]

/-! ### Views -/

open Document

/-- Seen as documents, values answer as their constructors tell. -/
structure IsView {δ : Type} [Document δ] (v : Json → δ) : Prop where
  text (s : String) : text? (v (.text s)) = some s
  nat {n : Nat} (h : n < Word.bound) : nat? (v (.nat n)) = some n
  bool (b : Bool) : bool? (v (.bool b)) = some b
  name {names : List String} {s : String} (h : s ∈ names) : name? names (v (.text s)) = some s
  items (items : List Json) : items? (v (.list items)) = some (items.map v)
  fields (names : List String) (members : List (String × Json)) :
    fields? names (v (.record members)) = some (members.map fun m => (m.1, v m.2))
  tagged {tag kind : String} {kinds : List String} {members : List (String × Json)}
    (htag : find? members tag = some (some (.text kind))) (hkind : kind ∈ kinds) :
    tagged? tag kinds (v (.record members)) =
      some (kind, tree (.record (members.filter (·.1 != tag))))
  tag {tag : String} {kinds : List String} {members : List (String × Json)}
    (h : (tagged? tag kinds (v (.record members))).isSome) :
    ∃ value, find? members tag = some (some value)

theorem fields?_part (depth : Nat) (names : List String) (members : List (String × Json)) :
    fields? names (Part.mk (depth + 1) (record members)) =
      some (members.map fun m => (m.1, ⟨depth, m.2⟩)) := by
  change Part.members? depth _ = _
  rw [Part.members?, List.mapM_map]
  exact mapM_eq_some_map fun _ _ => rfl

theorem tree_record (members : List (String × Json)) :
    (record members).tree = .table (members.map fun m => (.text m.1, m.2.tree)) := by
  rw [record, tree, List.map_map]
  rfl

theorem filter_isText (tag : String) (members : List (String × Json)) :
    (members.map fun m => (Datum.text m.1, m.2.tree)).filter (·.1.isText tag) =
      (members.filter (·.1 == tag)).map fun m => (.text m.1, m.2.tree) := by
  rw [List.filter_map]
  rfl

theorem filter_not_isText (tag : String) (members : List (String × Json)) :
    (members.map fun m => (Datum.text m.1, m.2.tree)).filter (!·.1.isText tag) =
      (members.filter (·.1 != tag)).map fun m => (.text m.1, m.2.tree) := by
  rw [List.filter_map]
  rfl

theorem filter_some (tag : String) (members : List (String × Json)) :
    (members.map fun (key, value) => (some key, value)).filter (·.1 == some tag) =
      (members.filter (·.1 == tag)).map fun (key, value) => (some key, value) := by
  rw [List.filter_map]
  rfl

theorem filter_ne_some (tag : String) (members : List (String × Json)) :
    (members.map fun (key, value) => (some key, value)).filter (·.1 != some tag) =
      (members.filter (·.1 != tag)).map fun (key, value) => (some key, value) := by
  rw [List.filter_map]
  rfl

theorem isView_tree : IsView tree where
  text s := by rw [Json.text, tree]; rfl
  nat h := by rw [Json.nat, tree, Number.tree, Number.nat?, if_pos h]; rfl
  bool b := by rw [tree]; rfl
  name h := by rw [Json.text, tree]; exact if_pos h
  items items := by rw [tree]; rfl
  fields names members := by
    rw [tree_record]
    change Datum.namedEntries? names _ = _
    induction members with
    | nil => rfl
    | cons m members ih => simp [Datum.namedEntries?, Datum.fieldName?, ih]
  tagged htag hkind := by
    rw [tree_record, tree_record]
    simp only [tagged?, filter_isText, filter_not_isText, find?_eq_some_some.mp htag]
    simp [Json.text, tree, textTree, Datum.caseName?, hkind]
  tag h := by
    rw [tree_record] at h
    simp only [tagged?, filter_isText] at h
    split at h
    · rename_i hfound
      exact exists_find? ((List.length_map _).symm.trans (congrArg List.length hfound))
    · cases h

theorem isView_boundless : IsView Boundless.mk where
  text s := rfl
  nat h := if_pos h
  bool b := rfl
  name h := if_pos h
  items items := congrArg some List.map_map
  fields names members := by
    change (fields? names (Part.mk 1 (record members))).map _ = _
    rw [fields?_part, Option.map_some, List.map_map]
    rfl
  tagged htag hkind := by
    simp only [record, tagged?, filter_some, filter_ne_some, find?_eq_some_some.mp htag]
    simp [Json.text, hkind]
  tag h := by
    simp only [record, tagged?, filter_some] at h
    split at h
    · rename_i hfound
      exact exists_find? ((List.length_map _).symm.trans (congrArg List.length hfound))
    · cases h

end Json

end Raster
