import Raster.Proofs.JsonTree
import Raster.Scene.Decode
import Raster.Scene.Encode

/-!
# Scenes as JSON values

A scene whose numbers are words is decoded from what it is encoded as.
-/

namespace Raster

open Json Document

/-! ## The numbers of a scene -/

def Rect.words (r : Rect) : List Nat := [r.x, r.y, r.w, r.h]

def Pattern.words : Pattern → List Nat
  | checker size _ _ => [size]
  | _ => []

def Layer.words (l : Layer) : List Nat := l.width :: l.height :: l.pattern.words

def Op.words : Op → List Nat
  | fill _ => []
  | fillRect rect _ | replaceRect rect _ | blendGray rect _ | blendColor rect _
  | multiplyRect rect _ | invertRect rect => rect.words
  | hatchRect rect stripe _ _ => stripe :: rect.words
  | roundedCorner rect border radius _ _ => border :: radius :: rect.words
  | blit layer x y _ _ _ => x :: y :: layer.words

def Scene.words (s : Scene) : List Nat := s.width :: s.height :: s.ops.flatMap Op.words

/-- Numbers that all fit a word. -/
def AreWords (ns : List Nat) : Prop := ∀ n ∈ ns, n < Word.bound

instance (ns : List Nat) : Decidable (AreWords ns) := List.decidableBAll _ ns

/-! ## Decoding what is encoded -/

section View

variable {δ : Type} [Document δ] {v : Json → δ} (hv : Json.IsView v)

include hv

theorem decodeByte?_view (b : UInt8) : decodeByte? (v (byteToJson b)) = some b := by
  have hlt := b.toNat_lt
  rw [decodeByte?, byteToJson, hv.nat (by unfold Word.bound; omega)]
  simp [hlt]

theorem PixelFormat.decode?_view (f : PixelFormat) : decode? (v (.text f.name)) = some f := by
  have hmem : f.name ∈ all.map name := by cases f <;> decide
  rw [decode?, hv.name hmem]
  exact ofExactName?_name f

theorem BlitMode.decode?_view (m : BlitMode) : decode? (v (.text m.name)) = some m := by
  have hmem : m.name ∈ all.map name := by cases m <;> decide
  rw [decode?, hv.name hmem]
  exact ofName?_name m

theorem Rotation.decode?_view (r : Rotation) : decode? (v (.nat r.turns)) = some r := by
  have hturns : r.turns < Word.bound := Nat.lt_of_lt_of_le r.turns_lt (by decide)
  rw [decode?, hv.nat hturns]
  cases r <;> rfl

theorem Rect.decode?_view {r : Rect} (hr : AreWords r.words) : decode? (v r.toJson) = some r := by
  simp only [AreWords, words, List.forall_mem_cons] at hr
  obtain ⟨hx, hy, hw, hh, -⟩ := hr
  rw [decode?, toJson, hv.items]
  simp [hv.nat hx, hv.nat hy, hv.nat hw, hv.nat hh]

theorem decodePoint?_view {x y : Nat} (hx : x < Word.bound) (hy : y < Word.bound) :
    decodePoint? (v (.list [.nat x, .nat y])) = some (x, y) := by
  rw [decodePoint?, hv.items]
  simp [hv.nat hx, hv.nat hy]

theorem GrayAlpha.decode?_view (c : GrayAlpha) : decode? (v c.toJson) = some c := by
  rw [decode?, toJson, hv.fields]
  simp [required?, optional?, find?, decodeByte?_view hv]

theorem Rgba.decode?_view (c : Rgba) : decode? (v c.toJson) = some c := by
  rw [decode?, toJson, hv.fields]
  simp [required?, optional?, find?, decodeByte?_view hv]

/-- The kind of a tagged record is told by its tag, and the rest are its fields. -/
theorem decodeKind?_view {tag kind : String} {kinds : List (String × List String)}
    {names : List String} {members : List (String × Json)}
    (htag : find? members tag = some (some (.text kind)))
    (hkind : kinds.lookup kind = some names) :
    decodeKind? tag kinds (v (.record members)) =
      some (kind, (members.filter (·.1 != tag)).map fun m => (m.1, m.2.tree)) := by
  have hmem : kind ∈ kinds.map (·.1) := List.mem_map_of_mem (mem_of_lookup hkind)
  rw [decodeKind?, hv.tagged htag hmem, Option.bind_eq_bind, Option.bind_some]
  simp [hkind, isView_tree.fields]

theorem Pattern.decode?_view {p : Pattern} (hp : AreWords p.words) :
    decode? (v p.toJson) = some p := by
  cases p with
  | solid color =>
      rw [decode?, toJson, decodeKind?_view hv rfl rfl]
      simp [required?, find?, Rgba.decode?_view isView_tree]
  | gradient start stop vertical =>
      rw [decode?, toJson, decodeKind?_view hv rfl rfl]
      simp [required?, optional?, find?, Rgba.decode?_view isView_tree, isView_tree.bool]
  | checker size a b =>
      have hsize := hp size List.mem_cons_self
      rw [decode?, toJson, decodeKind?_view hv rfl rfl]
      simp [required?, find?, Rgba.decode?_view isView_tree, isView_tree.nat hsize]

theorem Layer.decode?_view {l : Layer} (hl : AreWords l.words) : decode? (v l.toJson) = some l := by
  simp only [AreWords, words, List.forall_mem_cons] at hl
  obtain ⟨hwidth, hheight, hpattern⟩ := hl
  rw [decode?, toJson, hv.fields]
  simp [required?, optional?, find?, hv.nat hwidth, hv.nat hheight, PixelFormat.decode?_view hv,
    Rotation.decode?_view hv, Pattern.decode?_view hv hpattern]

end View

/-- Operations are encoded with the fields that are listed for their kind. -/
theorem Op.lookup_name (op : Op) : kinds.lookup op.name = some (op.fields.map (·.1)) := by
  cases op <;> rfl

/-- The tag of an operation is none of its fields. -/
theorem Op.ne_tag (op : Op) : ∀ m ∈ op.fields, m.1 ≠ "op" := by
  cases op <;> simp [fields]

theorem Op.ofFields?_fields {op : Op} (hop : AreWords op.words) :
    ofFields? op.name (op.fields.map fun m => (m.1, m.2.tree)) = some op := by
  have hbyte := decodeByte?_view isView_tree
  have hcolor := Rgba.decode?_view isView_tree
  have hrect {r : Rect} (hr : AreWords r.words) := Rect.decode?_view isView_tree hr
  cases op with
  | fill value => simp [ofFields?, name, fields, required?, find?, hbyte]
  | fillRect rect value => simp [ofFields?, name, fields, required?, find?, hrect hop, hbyte]
  | replaceRect rect color | blendColor rect color | multiplyRect rect color =>
      simp [ofFields?, name, fields, required?, find?, hrect hop, hcolor]
  | blendGray rect color =>
      simp [ofFields?, name, fields, required?, find?, hrect hop,
        GrayAlpha.decode?_view isView_tree]
  | invertRect rect => simp [ofFields?, name, fields, required?, find?, hrect hop]
  | hatchRect rect stripe value alpha =>
      obtain ⟨hstripe, hr⟩ := List.forall_mem_cons.mp hop
      simp [ofFields?, name, fields, required?, optional?, find?, hrect hr, hbyte,
        isView_tree.nat hstripe]
  | roundedCorner rect border radius value smooth =>
      obtain ⟨hborder, hrest⟩ := List.forall_mem_cons.mp hop
      obtain ⟨hradius, hr⟩ := List.forall_mem_cons.mp hrest
      simp [ofFields?, name, fields, required?, optional?, find?, hrect hr, hbyte, isView_tree.bool,
        isView_tree.nat hborder, isView_tree.nat hradius]
  | blit layer x y mode alpha color =>
      obtain ⟨hx, hrest⟩ := List.forall_mem_cons.mp hop
      obtain ⟨hy, hlayer⟩ := List.forall_mem_cons.mp hrest
      simp [ofFields?, name, fields, required?, optional?, find?, hbyte, hcolor,
        Layer.decode?_view isView_tree hlayer, decodePoint?_view isView_tree hx hy,
        BlitMode.decode?_view isView_tree]

/-- An operation is decoded from what it is encoded as. -/
theorem Op.decode?_view {δ : Type} [Document δ] {v : Json → δ} (hv : Json.IsView v) {op : Op}
    (hop : AreWords op.words) : decode? (v op.toJson) = some op := by
  have htag :
      find? (("op", Json.text op.name) :: op.fields) "op" = some (some (.text op.name)) := by
    rw [find?_eq_some_some, List.filter_cons_of_pos rfl, List.filter_eq_nil_iff.mpr]
    exact fun m hm => by simpa using op.ne_tag m hm
  have hrest : (("op", Json.text op.name) :: op.fields).filter (·.1 != "op") = op.fields := by
    rw [List.filter_cons_of_neg (by simp), List.filter_eq_self]
    exact fun m hm => by simpa using op.ne_tag m hm
  rw [decode?, toJson, decodeKind?_view hv htag op.lookup_name, hrest]
  exact op.ofFields?_fields hop

/-- A scene is decoded from what it is encoded as. -/
theorem Scene.decode?_view {δ : Type} [Document δ] {v : Json → δ} (hv : Json.IsView v) {s : Scene}
    (hs : AreWords s.words) : decode? (v s.toJson) = some s := by
  simp only [AreWords, words, List.forall_mem_cons, List.forall_mem_flatMap] at hs
  obtain ⟨hwidth, hheight, hops⟩ := hs
  have hlist : s.ops.mapM (Op.decode? ∘ v ∘ Op.toJson) = some s.ops :=
    (mapM_eq_some_map fun op hop => Op.decode?_view hv (hops op hop)).trans
      (congrArg some (List.map_id' _))
  rw [decode?, toJson, hv.fields]
  simp [required?, optional?, find?, hv.text, hv.nat hwidth, hv.nat hheight, decodeByte?_view hv,
    PixelFormat.decode?_view hv, Rotation.decode?_view hv, hv.items, hlist]

/-! ## Within the limits -/

/-- The operations that a document lists. -/
def Json.ops (j : Json) : List Json :=
  match j.get? "ops" with
  | some (.list items) => items
  | _ => []

theorem Op.decode?_part (depth : Nat) (j : Json) :
    decode? (Json.Part.mk depth j) =
      if j.isPlain depth then decode? (Boundless.mk j) else none := by
  rw [decode?, decode?, decodeKind?, decodeKind?, tagged?_part]
  split <;> rfl

theorem Json.get?_record (members : List (String × Json)) (name : String) :
    (record members).get? name = (members.filter (·.1 == name)).head?.map (·.2) := by
  rw [record, get?, List.find?_map, List.head?_filter, Option.map_map]
  rfl

/-- The operations of a scene are read within the limits if all of them are plain data. -/
theorem optional?_ops (depth : Nat) (members : List (String × Json)) :
    optional? members "ops"
        (fun j => (items? (Json.Part.mk (depth + 1) j)).bind fun items =>
          items.mapM Op.decode?) [] =
      if (Json.record members).ops.all (isPlain depth) then
        optional? members "ops"
          (fun j => (items? (Boundless.mk j)).bind fun items => items.mapM Op.decode?) []
      else none := by
  rw [optional?, optional?, find?, Json.ops, Json.get?_record]
  generalize members.filter _ = found
  rcases found with _ | ⟨⟨name, value⟩, _ | ⟨next, rest⟩⟩
  · rfl
  · cases value with
    | list items =>
      have hlist : ((items.map (Json.Part.mk depth)).mapM Op.decode?) =
          if items.all (isPlain depth) then (items.map Boundless.mk).mapM Op.decode? else none := by
        rw [List.mapM_map, List.mapM_map, ← mapM_guarded]
        exact congrArg (items.mapM ·) (funext (Op.decode?_part depth))
      have hitems : items? (Boundless.mk (.list items)) = some (items.map Boundless.mk) :=
        isView_boundless.items items
      simp only [Option.bind_eq_bind, Option.bind_some, hitems]
      exact hlist
    | _ => rfl
  · exact (ite_self none).symm

/-- A scene is read within the limits if all of its operations are. Whatever else is not of the
scene is passed over. -/
theorem Scene.decode?_part (depth : Nat) (members : List (String × Json)) :
    decode? (Json.Part.mk (depth + 2) (.record members)) =
      if (Json.record members).ops.all (isPlain depth) then
        decode? (Boundless.mk (.record members))
      else none := by
  have htext (j : Json) : text? (Json.Part.mk (depth + 1) j) = text? (Boundless.mk j) := by
    cases j <;> rfl
  have hnat (j : Json) : nat? (Json.Part.mk (depth + 1) j) = nat? (Boundless.mk j) := by
    cases j <;> rfl
  have hname (names : List String) (j : Json) :
      name? names (Json.Part.mk (depth + 1) j) = name? names (Boundless.mk j) := by
    match j with
    | .string none | .string (some s) => rfl
    | .null | .bool b | .number n | .list items => rfl
    | .object [] | .object ((none, value) :: _) => rfl
    | .object [(some key, value)] => cases value <;> rfl
    | .object ((some key, value) :: _ :: _) => cases value <;> rfl
  rw [decode?, decode?, fields?_part, isView_boundless.fields]
  simp only [required?_map, optional?_map, Option.bind_eq_bind, Option.bind_some, htext, hnat,
    decodeByte?, PixelFormat.decode?, Rotation.decode?, hname, optional?_ops]
  split
  · rfl
  · simp only [Option.bind_none, Option.bind_fun_none]

theorem isPlain_byteToJson (depth : Nat) (b : UInt8) : (byteToJson b).isPlain depth = true :=
  isPlain_nat depth (Nat.lt_trans b.toNat_lt (by decide))

theorem Rect.isPlain_toJson (depth : Nat) {r : Rect} (hr : AreWords r.words) :
    r.toJson.isPlain (depth + 1) = true := by
  simp only [AreWords, words, List.forall_mem_cons] at hr
  obtain ⟨hx, hy, hw, hh, -⟩ := hr
  simp [toJson, isPlain_list, isPlain_nat, hx, hy, hw, hh]

theorem GrayAlpha.isPlain_toJson (depth : Nat) (c : GrayAlpha) :
    c.toJson.isPlain (depth + 1) = true := by
  simp [toJson, isPlain_record, isPlain_byteToJson]

theorem Rgba.isPlain_toJson (depth : Nat) (c : Rgba) : c.toJson.isPlain (depth + 1) = true := by
  simp [toJson, isPlain_record, isPlain_byteToJson]

theorem Pattern.isPlain_toJson (depth : Nat) {p : Pattern} (hp : AreWords p.words) :
    p.toJson.isPlain (depth + 2) = true := by
  cases p with
  | solid color => simp [toJson, isPlain_record, isPlain_text, Rgba.isPlain_toJson]
  | gradient start stop vertical =>
      simp [toJson, isPlain_record, isPlain_text, isPlain_bool, Rgba.isPlain_toJson]
  | checker size a b =>
      have hsize := hp size List.mem_cons_self
      simp [toJson, isPlain_record, isPlain_text, isPlain_nat, hsize, Rgba.isPlain_toJson]

theorem Layer.isPlain_toJson (depth : Nat) {l : Layer} (hl : AreWords l.words) :
    l.toJson.isPlain (depth + 3) = true := by
  simp only [AreWords, words, List.forall_mem_cons] at hl
  obtain ⟨hwidth, hheight, hpattern⟩ := hl
  have hturns : l.rotation.turns < Word.bound := Nat.lt_of_lt_of_le l.rotation.turns_lt (by decide)
  simp [toJson, isPlain_record, isPlain_text, isPlain_nat, hwidth, hheight, hturns,
    Pattern.isPlain_toJson depth hpattern]

/-- What an operation is encoded as is no deeper than four collections. -/
theorem Op.isPlain_toJson (depth : Nat) {op : Op} (hop : AreWords op.words) :
    op.toJson.isPlain (depth + 4) = true := by
  have hrect {r : Rect} (hr : AreWords r.words) := Rect.isPlain_toJson (depth + 2) hr
  have hcolor := Rgba.isPlain_toJson (depth + 2)
  suffices hfields : ∀ m ∈ op.fields, m.2.isPlain (depth + 3) = true by
    rw [toJson, isPlain_record, List.all_cons, isPlain_text, Bool.true_and]
    exact List.all_eq_true.mpr hfields
  cases op with
  | fill value => simp [fields, isPlain_byteToJson]
  | fillRect rect value => simp [fields, hrect hop, isPlain_byteToJson]
  | replaceRect rect color | blendColor rect color | multiplyRect rect color =>
      simp [fields, hrect hop, hcolor]
  | blendGray rect color => simp [fields, hrect hop, GrayAlpha.isPlain_toJson]
  | invertRect rect => simp [fields, hrect hop]
  | hatchRect rect stripe value alpha =>
      obtain ⟨hstripe, hr⟩ := List.forall_mem_cons.mp hop
      simp [fields, hrect hr, isPlain_nat, hstripe, isPlain_byteToJson]
  | roundedCorner rect border radius value smooth =>
      obtain ⟨hborder, hrest⟩ := List.forall_mem_cons.mp hop
      obtain ⟨hradius, hr⟩ := List.forall_mem_cons.mp hrest
      simp [fields, hrect hr, isPlain_nat, hborder, hradius, isPlain_byteToJson, isPlain_bool]
  | blit layer x y mode alpha color =>
      obtain ⟨hx, hrest⟩ := List.forall_mem_cons.mp hop
      obtain ⟨hy, hlayer⟩ := List.forall_mem_cons.mp hrest
      simp [fields, Layer.isPlain_toJson depth hlayer, isPlain_list, isPlain_nat, hx, hy,
        isPlain_text, isPlain_byteToJson, hcolor]

/-- A scene is read back from what it is encoded as. -/
theorem Scene.decode?_toJson {s : Scene} (hs : AreWords s.words) :
    decode? (Json.Part.mk depthLimit s.toJson) = some s := by
  have hops : s.toJson.ops = s.ops.map Op.toJson := rfl
  have hplain : s.toJson.ops.all (isPlain (depthLimit - 2)) = true := by
    rw [hops, List.all_map, List.all_eq_true]
    exact fun op hop =>
      Op.isPlain_toJson 121 fun n hn =>
        hs n (.tail _ (.tail _ (List.mem_flatMap.mpr ⟨op, hop, hn⟩)))
  exact (decode?_part (depthLimit - 2) _).trans
    ((if_pos hplain).trans (decode?_view isView_boundless hs))

end Raster
