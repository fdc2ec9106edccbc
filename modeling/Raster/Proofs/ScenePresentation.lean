import Raster.Proofs.Presentation
import Raster.Proofs.SceneFile

/-!
# Presentations of a scene

However a document presents a scene, the scene is what it is loaded as, if the operations are
plain data within the depth to which values are read.
-/

namespace Raster

open Json Document

/-! ## Schemas -/

def GrayAlpha.schema : Schema :=
  .record [("v", none, .leaf), ("alpha", some (byteToJson 255), .leaf)]

def Rgba.schema : Schema :=
  .record [("r", none, .leaf), ("g", none, .leaf), ("b", none, .leaf),
    ("alpha", some (byteToJson 255), .leaf)]

def Pattern.schema : Schema :=
  .tagged "kind" [
    ("solid", [("color", none, Rgba.schema)]),
    ("gradient", [("from", none, Rgba.schema), ("to", none, Rgba.schema),
      ("vertical", some (.bool false), .leaf)]),
    ("checker", [("size", none, .leaf), ("a", none, Rgba.schema), ("b", none, Rgba.schema)])]

def Layer.schema : Schema :=
  .record [("width", none, .leaf), ("height", none, .leaf), ("format", some (.text "gray8"), .leaf),
    ("rotation", some (.nat 0), .leaf), ("pattern", none, Pattern.schema)]

def Op.schema : Schema :=
  .tagged "op" [
    ("fill", [("value", none, .leaf)]),
    ("fill_rect", [("rect", none, .leaf), ("value", none, .leaf)]),
    ("fill_rect_rgb", [("rect", none, .leaf), ("color", none, Rgba.schema)]),
    ("blend_rect", [("rect", none, .leaf), ("color", none, GrayAlpha.schema)]),
    ("blend_rect_rgb", [("rect", none, .leaf), ("color", none, Rgba.schema)]),
    ("multiply_rect", [("rect", none, .leaf), ("color", none, Rgba.schema)]),
    ("invert_rect", [("rect", none, .leaf)]),
    ("hatch_rect", [("rect", none, .leaf), ("stripe", none, .leaf), ("value", none, .leaf),
      ("alpha", some (byteToJson 255), .leaf)]),
    ("rounded_corner", [("rect", none, .leaf), ("border", none, .leaf), ("radius", none, .leaf),
      ("value", none, .leaf), ("anti_aliasing", some (.bool false), .leaf)]),
    ("blit", [("layer", none, Layer.schema), ("at", some (.list [.nat 0, .nat 0]), .leaf),
      ("mode", some (.text "copy"), .leaf), ("alpha", some (byteToJson 255), .leaf),
      ("color", some Rgba.black.toJson, Rgba.schema)])]

def Scene.schema : Schema :=
  .record [("name", none, .leaf), ("width", some (.nat 600), .leaf),
    ("height", some (.nat 800), .leaf), ("format", some (.text "gray8"), .leaf),
    ("rotation", some (.nat 0), .leaf), ("background", some (byteToJson 255), .leaf),
    ("ops", some (.list []), .list Op.schema)]

/-! ## Decoders -/

section View

variable {δ : Type} [Document δ] {v : Json → δ} (hv : IsView v)

include hv

theorem GrayAlpha.respects : schema.Respects fun j => decode? (v j) :=
  Schema.Respects.record hv fieldNames fun _ _ h =>
    .bind (h.required?_extends rfl (Schema.respects_leaf _)) fun _ =>
      .bind (h.optional?_extends rfl (Schema.respects_leaf _) (decodeByte?_view hv 255)) fun _ =>
        .refl _

theorem Rgba.respects : schema.Respects fun j => decode? (v j) :=
  Schema.Respects.record hv fieldNames fun _ _ h =>
    .bind (h.required?_extends rfl (Schema.respects_leaf _)) fun _ =>
      .bind (h.required?_extends rfl (Schema.respects_leaf _)) fun _ =>
        .bind (h.required?_extends rfl (Schema.respects_leaf _)) fun _ =>
          .bind (h.optional?_extends rfl (Schema.respects_leaf _) (decodeByte?_view hv 255))
            fun _ => .refl _

theorem Pattern.respects : schema.Respects fun j => decode? (v j) := by
  have hcolor := Rgba.respects isView_tree
  refine Schema.Respects.tagged hv kinds rfl ?_
  simp only [List.forall_mem_cons]
  refine ⟨fun _ _ h => ?_, fun _ _ h => ?_, fun _ _ h => ?_, nofun⟩
  · exact .bind (h.required?_extends rfl hcolor) fun _ => .refl _
  · exact .bind (h.required?_extends rfl hcolor) fun _ =>
      .bind (h.required?_extends rfl hcolor) fun _ =>
        .bind (h.optional?_extends rfl (Schema.respects_leaf _) (isView_tree.bool false)) fun _ =>
          .refl _
  · exact .bind (h.required?_extends rfl (Schema.respects_leaf _)) fun _ =>
      .bind (h.required?_extends rfl hcolor) fun _ =>
        .bind (h.required?_extends rfl hcolor) fun _ => .refl _

theorem Layer.respects : schema.Respects fun j => decode? (v j) :=
  Schema.Respects.record hv fieldNames fun _ _ h =>
    .bind (h.required?_extends rfl (Schema.respects_leaf _)) fun _ =>
      .bind (h.required?_extends rfl (Schema.respects_leaf _)) fun _ =>
        .bind (h.optional?_extends rfl (Schema.respects_leaf _)
          (PixelFormat.decode?_view hv .gray8)) fun _ =>
            .bind (h.optional?_extends rfl (Schema.respects_leaf _)
              (Rotation.decode?_view hv .upright)) fun _ =>
              .bind (h.required?_extends rfl (Pattern.respects hv)) fun _ => .refl _

theorem Op.respects : schema.Respects fun j => decode? (v j) := by
  have hleaf {α : Type} (decode : Json → Option α) := Schema.respects_leaf decode
  have hcolor := Rgba.respects isView_tree
  have hopaque := decodeByte?_view isView_tree 255
  refine Schema.Respects.tagged hv kinds rfl ?_
  simp only [List.forall_mem_cons]
  refine ⟨fun _ _ h => ?_, fun _ _ h => ?_, fun _ _ h => ?_, fun _ _ h => ?_, fun _ _ h => ?_,
    fun _ _ h => ?_, fun _ _ h => ?_, fun _ _ h => ?_, fun _ _ h => ?_, fun _ _ h => ?_, nofun⟩
  · exact .bind (h.required?_extends rfl (hleaf _)) fun _ => .refl _
  · exact .bind (h.required?_extends rfl (hleaf _)) fun _ =>
      .bind (h.required?_extends rfl (hleaf _)) fun _ => .refl _
  · exact .bind (h.required?_extends rfl (hleaf _)) fun _ =>
      .bind (h.required?_extends rfl hcolor) fun _ => .refl _
  · exact .bind (h.required?_extends rfl (hleaf _)) fun _ =>
      .bind (h.required?_extends rfl (GrayAlpha.respects isView_tree)) fun _ => .refl _
  · exact .bind (h.required?_extends rfl (hleaf _)) fun _ =>
      .bind (h.required?_extends rfl hcolor) fun _ => .refl _
  · exact .bind (h.required?_extends rfl (hleaf _)) fun _ =>
      .bind (h.required?_extends rfl hcolor) fun _ => .refl _
  · exact .bind (h.required?_extends rfl (hleaf _)) fun _ => .refl _
  · exact .bind (h.required?_extends rfl (hleaf _)) fun _ =>
      .bind (h.required?_extends rfl (hleaf _)) fun _ =>
        .bind (h.required?_extends rfl (hleaf _)) fun _ =>
          .bind (h.optional?_extends rfl (hleaf _) hopaque) fun _ => .refl _
  · exact .bind (h.required?_extends rfl (hleaf _)) fun _ =>
      .bind (h.required?_extends rfl (hleaf _)) fun _ =>
        .bind (h.required?_extends rfl (hleaf _)) fun _ =>
          .bind (h.required?_extends rfl (hleaf _)) fun _ =>
            .bind (h.optional?_extends rfl (hleaf _) (isView_tree.bool false)) fun _ => .refl _
  · refine .bind (h.required?_extends rfl (Layer.respects isView_tree)) fun _ =>
      .bind (h.optional?_extends rfl (hleaf _)
        (decodePoint?_view isView_tree (by decide) (by decide))) fun _ =>
        .bind (h.optional?_extends rfl (hleaf _) (BlitMode.decode?_view isView_tree .copy)) fun _ =>
          .bind (h.optional?_extends rfl (hleaf _) hopaque) fun _ =>
            .bind (h.optional?_extends rfl hcolor (Rgba.decode?_view isView_tree .black)) fun _ =>
              .refl _

theorem Scene.respects : schema.Respects fun j => decode? (v j) := by
  have hleaf {α : Type} (decode : Json → Option α) := Schema.respects_leaf decode
  have hwidth : nat? (v (.nat 600)) = some 600 := hv.nat (by decide)
  have hheight : nat? (v (.nat 800)) = some 800 := hv.nat (by decide)
  have hops : (items? (v (.list [])) >>= fun items => items.mapM Op.decode?) = some [] := by
    rw [hv.items]
    rfl
  exact Schema.Respects.record hv fieldNames fun _ _ h =>
    .bind (h.required?_extends rfl (hleaf _)) fun _ =>
      .bind (h.optional?_extends rfl (hleaf _) hwidth) fun _ =>
        .bind (h.optional?_extends rfl (hleaf _) hheight) fun _ =>
          .bind (h.optional?_extends rfl (hleaf _) (PixelFormat.decode?_view hv .gray8)) fun _ =>
            .bind (h.optional?_extends rfl (hleaf _) (Rotation.decode?_view hv .upright)) fun _ =>
              .bind (h.optional?_extends rfl (hleaf _) (decodeByte?_view hv 255)) fun _ =>
                .bind (h.optional?_extends rfl (Schema.Respects.list hv (Op.respects hv)) hops)
                  fun _ => .refl _

end View

/-! ## Presentations -/

/-- A document that presents a scene: what the scene is encoded as, after any number of changes. -/
def Scene.PresentedBy (s : Scene) : Json → Prop := Relation.ReflTransGen (Change schema) s.toJson

/-- Lists within each other, this many of them, around `null`. -/
def Json.nested : Nat → Json
  | 0 => .null
  | n + 1 => .list [nested n]

theorem Json.isPlain_nested (n depth : Nat) : (nested n).isPlain depth = decide (n ≤ depth) := by
  induction n generalizing depth with
  | zero => rw [nested, isPlain, datum?]; simp
  | succ n ih =>
      cases depth with
      | zero => rw [nested, isPlain, datum?]; simp
      | succ depth => simp [nested, isPlain_list, ih]

namespace Scene

variable {s : Scene} {j : Json}

/-- Without limits, a scene is read from every document that presents it. -/
theorem PresentedBy.decode? {δ : Type} [Document δ] {v : Json → δ} (hv : IsView v)
    (hs : AreWords s.words) (h : s.PresentedBy j) : decode? (v j) = some s := by
  induction h with
  | refl => exact decode?_view hv hs
  | tail _ hchange ih => exact respects hv _ _ hchange s ih

theorem PresentedBy.exists_record (h : s.PresentedBy j) : ∃ members, j = .record members := by
  cases h with
  | refl => exact ⟨_, rfl⟩
  | tail _ hchange =>
      cases hchange with
      | record => exact ⟨_, rfl⟩

theorem PresentedBy.ofString? (hs : AreWords s.words) (h : s.PresentedBy j) {text : String}
    (htext : Json.parse? text = some j) :
    ofString? text .json = if j.ops.all (isPlain (depthLimit - 2)) then some s else none := by
  obtain ⟨members, rfl⟩ := h.exists_record
  rw [Scene.ofString?, htext]
  refine (decode?_part (depthLimit - 2) members).trans ?_
  rw [h.decode? isView_boundless hs]

theorem PresentedBy.ofFile_json (hs : AreWords s.words) (h : s.PresentedBy j) {text : String}
    (htext : Json.parse? text = some j) (p : Path) :
    ofFile p .json (.ok text.toUTF8) =
      if j.ops.all (isPlain (depthLimit - 2)) then .ok s else .error (.malformed p .json) := by
  simp only [Scene.ofFile, fromUTF8?_toUTF8, h.ofString? hs htext]
  cases j.ops.all (isPlain (depthLimit - 2)) <;> rfl

/-- A file is loaded from the tree as what it holds. -/
theorem load_tree {p : Path} (hp : p.extension? = some "json") (t : FileTree) :
    (load p : StateM FileTree _) t = (Scene.ofFile p .json (t.read p), t) := by
  rw [load_json hp]
  rfl

/-! ### The depth of a note -/

def draft : Scene := ⟨"x", 600, 800, .gray8, .upright, 255, [.fill 3]⟩

/-- The fields of the draft but for its operations. -/
def draftFields : List (String × Json) :=
  [("name", .text "x"), ("width", .nat 600), ("height", .nat 800), ("format", .text "gray8"),
    ("rotation", .nat 0), ("background", byteToJson 255)]

/-- The draft, with a note of this depth on its only operation. -/
def noted (n : Nat) : Json :=
  .record (("ops", .list [.record [("note", nested n), ("op", .text "fill"),
    ("value", byteToJson 3)]]) :: draftFields)

theorem draft_presentedBy_noted (n : Nat) : draft.PresentedBy (noted n) := by
  have hfront := List.perm_append_singleton ("ops", Json.list [(Op.fill 3).toJson]) draftFields
  have htag : ("op", Json.text "fill") ∈ ("op", Json.text "fill") :: (Op.fill 3).fields :=
    List.mem_cons_self
  have hnote : Change Op.schema (Op.fill 3).toJson
      (.record (("note", nested n) :: ("op", .text "fill") :: (Op.fill 3).fields)) :=
    .tagged htag rfl (.addExtra rfl (by decide))
  exact (Relation.ReflTransGen.single (.record (.permute hfront))).tail
    (.record (.within rfl (@Change.item _ [] [] _ _ hnote)))

theorem ops_noted (n : Nat) :
    (noted n).ops.all (isPlain (depthLimit - 2)) = decide (n ≤ depthLimit - 3) := by
  have hops : (noted n).ops = [.record [("note", nested n), ("op", .text "fill"),
    ("value", byteToJson 3)]] := rfl
  rw [hops, List.all_cons, List.all_nil, Bool.and_true]
  refine (isPlain_record (depthLimit - 3) _).trans ?_
  simp [isPlain_nested, isPlain_text, isPlain_byteToJson]

/-- A tree with a JSON file of this text. -/
def stored (text : String) : FileTree :=
  FileTree.empty.put ["work", "draft.json"] (.file (.bytes text.toUTF8))

theorem read_stored (text : String) :
    (stored text).read (.ofString "draft.json") = .ok text.toUTF8 := by
  rw [stored]
  generalize text.toUTF8 = bytes
  rfl

/-! ### Loading -/

/-- A scene is loaded from a JSON file that presents it if every operation of the document is
plain data within the depth that is left for it; what is added to the scene itself is not read. -/
theorem load_presented (hs : AreWords s.words) (h : s.PresentedBy j) {text : String}
    (htext : Json.parse? text = some j) {p : Path} (hp : p.extension? = some "json")
    {t : FileTree} (ht : t.read p = .ok text.toUTF8) :
    (load p : StateM FileTree _) t =
      (if j.ops.all (isPlain (depthLimit - 2)) then .ok s else .error (.malformed p .json), t) := by
  rw [load_tree hp, ht, h.ofFile_json hs htext]

/-- The draft in another order, without its width and with notes; only the operation's counts. -/
theorem load_presented_draft :
    let j := Json.record (("note", nested 1000) ::
      ("ops", .list [.record [("note", nested 124), ("op", .text "fill"),
        ("value", byteToJson 3)]]) :: draftFields.filter (·.1 != "width"))
    let p := Path.ofString "draft.json"
    AreWords draft.words ∧ draft.PresentedBy j ∧ Json.parse? j.pretty = some j ∧
      p.extension? = some "json" ∧ (stored j.pretty).read p = .ok j.pretty.toUTF8 ∧
      (load p : StateM FileTree _) (stored j.pretty) = (.ok draft, stored j.pretty) := by
  intro j p
  have hwords : AreWords draft.words := by decide
  have hp : p.extension? = some "json" := by decide
  have hpresented : draft.PresentedBy j := by
    let ops := ("ops", Json.list [.record [("note", nested 124), ("op", .text "fill"),
      ("value", byteToJson 3)]])
    have hwidth : (ops :: draftFields).Perm
        (("width", .nat 600) :: ops :: draftFields.filter (·.1 != "width")) :=
      ((List.Perm.swap _ _ _).cons _).trans (List.Perm.swap _ _ _)
    exact (((draft_presentedBy_noted 124).tail (.record (.permute hwidth))).tail
      (.record (.leaveOut rfl))).tail (.record (.addExtra rfl (by decide)))
  have hparse := parse?_pretty j
  have hread := read_stored j.pretty
  have hplain : j.ops.all (isPlain (depthLimit - 2)) = true := ops_noted 124
  refine ⟨hwords, hpresented, hparse, hp, hread, ?_⟩
  rw [load_presented hwords hpresented hparse hp hread, if_pos hplain]

/-- A note of two hundred lists within each other is not passed over. -/
theorem not_all_presented_loaded :
    ¬ ∀ (s : Scene) (j : Json) (text : String) (p : Path) (t : FileTree), AreWords s.words →
      s.PresentedBy j → Json.parse? text = some j → p.extension? = some "json" →
      t.read p = .ok text.toUTF8 → (load p : StateM FileTree _) t = (.ok s, t) := by
  intro h
  let text := (noted 200).pretty
  have hwords : AreWords draft.words := by decide
  have hp : (Path.ofString "draft.json").extension? = some "json" := by decide
  have hloaded := h draft (noted 200) text _ (stored text) hwords (draft_presentedBy_noted 200)
    (parse?_pretty _) hp (read_stored text)
  rw [load_tree hp, read_stored,
    (draft_presentedBy_noted 200).ofFile_json hwords (parse?_pretty _), ops_noted] at hloaded
  cases congrArg Prod.fst hloaded

end Scene

end Raster
