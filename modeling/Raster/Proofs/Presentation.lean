import Mathlib.Logic.Relation
import Raster.Proofs.SceneCoding

/-!
# Presentations of a document

The fields of an object may stand in any order, a field with its default value may be missing, and
fields of other names may be added. A schema tells where in a document this may be done. What one
such change leaves of a decoder's answer, any number of them leaves.
-/

namespace Raster

namespace Document

variable {δ : Type} {fields fields' : List (String × δ)} {name key : String}

theorem find?_perm (h : fields.Perm fields') : find? fields name = find? fields' name := by
  have hfound := h.filter (·.1 == name)
  rw [find?, find?]
  generalize fields.filter _ = found at hfound
  generalize fields'.filter _ = found' at hfound
  rcases found with _ | ⟨m, _ | ⟨next, rest⟩⟩
  · rw [List.nil_perm.mp hfound]
  · rw [List.singleton_perm.mp hfound]
  · have hlength := hfound.length_eq
    rcases found' with _ | ⟨m', _ | ⟨next', rest'⟩⟩
    · cases hlength
    · cases hlength
    · rfl

theorem find?_cons_ne (h : key ≠ name) (d : δ) :
    find? ((key, d) :: fields) name = find? fields name := by
  rw [find?, find?, List.filter_cons_of_neg (by simpa using h)]

theorem find?_cons_self (d : δ) :
    find? ((name, d) :: fields) name = (find? fields name).bind fun found =>
      match found with
      | none => some (some d)
      | some _ => none := by
  rw [find?, find?, List.filter_cons_of_pos (by simp)]
  generalize fields.filter _ = found
  rcases found with _ | ⟨m, _ | ⟨next, rest⟩⟩ <;> rfl

end Document

namespace Json

open Document

/-- How a value is made up. Every field of a record has a name, perhaps a default, and a schema;
the fields of a tagged record depend on its kind. -/
inductive Schema where
  | leaf
  | list (item : Schema)
  | record (fields : List (String × Option Json × Schema))
  | tagged (tag : String) (kinds : List (String × List (String × Option Json × Schema)))

abbrev Fields := List (String × Option Json × Schema)

mutual

/-- A change of one value, at any depth. -/
inductive Change : Schema → Json → Json → Prop where
  | item {σ before after j j'} : Change σ j j' →
      Change (.list σ) (.list (before ++ j :: after)) (.list (before ++ j' :: after))
  | record {fields members members'} : MemberChange fields members members' →
      Change (.record fields) (.record members) (.record members')
  /-- The members of a tagged record change, and the tag is one of them. -/
  | tagged {tag kind kinds fields members members'} : (tag, .text kind) ∈ members →
      kinds.lookup kind = some fields →
      MemberChange ((tag, none, .leaf) :: fields) members members' →
      Change (.tagged tag kinds) (.record members) (.record members')

/-- A change of the members of one object, or within one of them. -/
inductive MemberChange : Fields → List (String × Json) → List (String × Json) → Prop where
  | permute {fields members members'} : members.Perm members' → MemberChange fields members members'
  /-- A field with its default value is left out. -/
  | leaveOut {fields name missing σ members} : fields.lookup name = some (some missing, σ) →
      MemberChange fields ((name, missing) :: members) members
  /-- A member is added, of any value and of a name that no field and no other member has. -/
  | addExtra {fields name value members} : fields.lookup name = none →
      name ∉ members.map Prod.fst → MemberChange fields members ((name, value) :: members)
  | within {fields name missing? σ j j' members} : fields.lookup name = some (missing?, σ) →
      Change σ j j' → MemberChange fields ((name, j) :: members) ((name, j') :: members)

end

/-! ## Decoders -/

/-- What the decoder makes of a value, it makes of the value after a change. -/
def Schema.Respects {α : Type} (σ : Schema) (decode : Json → Option α) : Prop :=
  ∀ j j', Change σ j j' → Extends (decode j) (decode j')

variable {α : Type} {fields : Fields} {σ : Schema}
  {members members' : List (String × Json)} {name : String}

theorem Schema.respects_leaf (decode : Json → Option α) : Schema.leaf.Respects decode := nofun

/-- What a change of the members does to one field: as it is found before, and after. A field
that is given twice is not read at all. -/
inductive FieldChange (σ : Schema) (missing? : Option Json) :
    Option (Option Json) → Option (Option Json) → Prop where
  | same (found) : FieldChange σ missing? found found
  | within {j j'} : Change σ j j' → FieldChange σ missing? (some (some j)) (some (some j'))
  | leftOut {j} : missing? = some j → FieldChange σ missing? (some (some j)) (some none)
  | repeated (found) : FieldChange σ missing? none found

namespace MemberChange

theorem fieldChange {missing? : Option Json} (h : MemberChange fields members members')
    (hname : fields.lookup name = some (missing?, σ)) :
    FieldChange σ missing? (find? members name) (find? members' name) := by
  cases h with
  | permute h =>
      rw [find?_perm h]
      exact .same _
  | @leaveOut _ key missing _ _ hkey =>
      by_cases hne : key = name
      · subst hne
        rw [hname] at hkey
        cases hkey
        rw [find?_cons_self]
        match find? members' key with
        | none | some (some _) => exact .repeated _
        | some none => exact .leftOut rfl
      · rw [find?_cons_ne hne]
        exact .same _
  | @addExtra _ key value _ hkey _ =>
      have hne : key ≠ name := by
        rintro rfl
        rw [hname] at hkey
        cases hkey
      rw [find?_cons_ne hne]
      exact .same _
  | @within _ key _ _ j j' members hkey hchange =>
      by_cases hne : key = name
      · subst hne
        rw [hname] at hkey
        cases hkey
        rw [find?_cons_self, find?_cons_self]
        match find? members key with
        | none | some (some _) => exact .repeated _
        | some none => exact .within hchange
      · rw [find?_cons_ne hne, find?_cons_ne hne]
        exact .same _

variable {δ : Type} {v : Json → δ} {decode : δ → Option α}

theorem required?_extends (h : MemberChange fields members members')
    (hname : fields.lookup name = some (none, σ)) (hdecode : σ.Respects fun j => decode (v j)) :
    Extends (required? (members.map fun m => (m.1, v m.2)) name decode)
      (required? (members'.map fun m => (m.1, v m.2)) name decode) := by
  have hchange := h.fieldChange hname
  rw [required?_map, required?_map, required?, required?]
  generalize find? members name = found at hchange ⊢
  generalize find? members' name = found' at hchange ⊢
  cases hchange with
  | same => exact .refl _
  | within hchange => exact hdecode _ _ hchange
  | leftOut hmissing => cases hmissing
  | repeated => exact fun a ha => by cases ha

theorem optional?_extends {j : Json} {missing : α} (h : MemberChange fields members members')
    (hname : fields.lookup name = some (some j, σ)) (hdecode : σ.Respects fun j => decode (v j))
    (hmissing : decode (v j) = some missing) :
    Extends (optional? (members.map fun m => (m.1, v m.2)) name decode missing)
      (optional? (members'.map fun m => (m.1, v m.2)) name decode missing) := by
  have hchange := h.fieldChange hname
  rw [optional?_map, optional?_map, optional?, optional?]
  generalize find? members name = found at hchange ⊢
  generalize find? members' name = found' at hchange ⊢
  cases hchange with
  | same => exact .refl _
  | within hchange => exact hdecode _ _ hchange
  | leftOut hj =>
      cases hj
      exact fun a ha => hmissing.symm.trans ha
  | repeated => exact fun a ha => by cases ha

theorem find?_tag {tag : String} {value : Json}
    (h : MemberChange ((tag, none, .leaf) :: fields) members members')
    (htag : find? members tag = some (some value)) : find? members' tag = some (some value) := by
  have hname : List.lookup tag ((tag, none, Schema.leaf) :: fields) = some (none, .leaf) :=
    List.lookup_cons_self
  have hchange := h.fieldChange hname
  rw [htag] at hchange
  generalize find? members' tag = found at hchange ⊢
  cases hchange with
  | same => rfl
  | within hleaf => cases hleaf
  | leftOut hmissing => cases hmissing

theorem untag {tag : String} (h : MemberChange ((tag, none, .leaf) :: fields) members members') :
    MemberChange fields (members.filter (·.1 != tag)) (members'.filter (·.1 != tag)) := by
  have hfields {key : String} (hne : key ≠ tag) :
      List.lookup key ((tag, none, .leaf) :: fields) = fields.lookup key := by
    rw [List.lookup_cons, beq_false_of_ne hne]
  have hkeep {key : String} (hne : key ≠ tag) (j : Json) (members : List (String × Json)) :
      ((key, j) :: members).filter (·.1 != tag) = (key, j) :: members.filter (·.1 != tag) :=
    List.filter_cons_of_pos (by simpa using hne)
  cases h with
  | permute h => exact .permute (h.filter _)
  | @leaveOut _ key missing _ _ hkey =>
      have hne : key ≠ tag := by
        rintro rfl
        rw [List.lookup_cons_self] at hkey
        cases hkey
      rw [hkeep hne]
      exact .leaveOut (hfields hne ▸ hkey)
  | @addExtra _ key value _ hkey hnew =>
      have hne : key ≠ tag := by
        rintro rfl
        rw [List.lookup_cons_self] at hkey
        cases hkey
      rw [hkeep hne]
      exact .addExtra (hfields hne ▸ hkey) fun hmem =>
        hnew (List.map_subset _ List.filter_sublist.subset hmem)
  | @within _ key _ _ j j' _ hkey hchange =>
      by_cases hne : key = tag
      · subst hne
        rw [List.lookup_cons_self] at hkey
        cases hkey
        cases hchange
      · rw [hkeep hne, hkeep hne]
        exact .within (hfields hne ▸ hkey) hchange

end MemberChange

/-! ### Collections -/

namespace Schema.Respects

variable {δ : Type} [Document δ] {v : Json → δ} (hv : IsView v)

include hv

theorem record {decode : List (String × δ) → Option α} (names : List String)
    (hdecode : ∀ members members', MemberChange fields members members' →
      Extends (decode (members.map fun m => (m.1, v m.2)))
        (decode (members'.map fun m => (m.1, v m.2)))) :
    (Schema.record fields).Respects fun j => fields? names (v j) >>= decode := by
  intro j j' hchange
  cases hchange with
  | record hmembers =>
      dsimp only
      rw [hv.fields, hv.fields]
      exact hdecode _ _ hmembers

theorem list {decode : δ → Option α} (h : σ.Respects fun j => decode (v j)) :
    (Schema.list σ).Respects fun j => items? (v j) >>= fun items => items.mapM decode := by
  intro j j' hchange
  cases hchange with
  | @item _ before after j j' hitem =>
      simp only [hv.items, List.map_append, List.map_cons]
      exact .mapM (h _ _ hitem) _ _

theorem tagged {tag : String} {kinds : List (String × Fields)}
    (names : List (String × List String)) {decode : String × List (String × Datum) → Option α}
    (hnames : names = kinds.map fun k => (k.1, k.2.map Prod.fst))
    (hdecode : ∀ k ∈ kinds, ∀ members members', MemberChange k.2 members members' →
      Extends (decode (k.1, members.map fun m => (m.1, m.2.tree)))
        (decode (k.1, members'.map fun m => (m.1, m.2.tree)))) :
    (Schema.tagged tag kinds).Respects fun j => decodeKind? tag names (v j) >>= decode := by
  intro j j' hchange
  cases hchange with
  | @tagged _ kind _ fields members members' hmem hkind hmembers =>
      dsimp only
      intro a ha
      obtain ⟨found, hfound, -⟩ := Option.bind_eq_some_iff.mp ha
      obtain ⟨read, hread, -⟩ := Option.bind_eq_some_iff.mp hfound
      obtain ⟨value, htag⟩ := hv.tag (Option.isSome_of_eq_some hread)
      have hvalue : (tag, Json.text kind) ∈ members.filter (·.1 == tag) :=
        List.mem_filter.mpr ⟨hmem, beq_self_eq_true tag⟩
      rw [find?_eq_some_some.mp htag, List.mem_singleton] at hvalue
      cases hvalue
      have hlookup : names.lookup kind = some (fields.map Prod.fst) := by
        rw [hnames, lookup_map, hkind]
        rfl
      have hread {members : List (String × Json)}
          (htag : find? members tag = some (some (.text kind))) :=
        decodeKind?_view hv htag hlookup
      rw [hread htag] at ha
      rw [hread (hmembers.find?_tag htag)]
      exact hdecode (kind, fields) (mem_of_lookup hkind) _ _ hmembers.untag a ha

end Schema.Respects

end Json

end Raster
