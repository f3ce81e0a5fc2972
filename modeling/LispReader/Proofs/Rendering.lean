import LispReader.Proofs.Json.Written
import LispReader.Tree.Render

/-! Trees as JSON values.

A tree stands for a JSON value, and what the stack machine writes is the text of that value in the
layout of the style (`render?_eq`): what is written of a tree does not depend on what is pending
below it. The tree is read back from its text, so different trees have different texts:
`render_inj`. -/
namespace LispReader.Tree

variable {α : Type}

/-! ### Values of trees -/

mutual

/-- The JSON value of a tree, or the first foreign leaf from the left. -/
def toJson? : Tree α → Except α Json
  | number n => .ok (.integer n)
  | symbol s => .ok (.text s)
  | foreign a => .error a
  | sequence head tail =>
    head.toJson?.bind fun item => (toJsonAll? tail).map fun items => .array (item :: items)

def toJsonAll? : List (Tree α) → Except α (List Json)
  | [] => .ok []
  | t :: ts => t.toJson?.bind fun item => (toJsonAll? ts).map (item :: ·)

end

mutual

/-- The tree of a JSON value; none if there is a null, an object or an empty array in it. -/
def ofJson? : Json → Option (Tree α)
  | .integer n => some (.number n)
  | .text s => some (.symbol s)
  | .array items => (ofJsonAll? items).bind ofItems?
  | .null | .object _ => none

def ofJsonAll? : List Json → Option (List (Tree α))
  | [] => some []
  | item :: items => (ofJson? item).bind fun t => (ofJsonAll? items).map (t :: ·)

end

/-- Two parts that are put together have both been found. -/
theorem exists_of_bind_map {ε β γ δ : Type} {x : Except ε β} {y : Except ε γ} {f : β → γ → δ}
    {d : δ} (h : (x.bind fun b => y.map (f b)) = .ok d) :
    ∃ b c, x = .ok b ∧ y = .ok c ∧ f b c = d := by
  cases x with
  | error e => cases h
  | ok b =>
    cases y with
    | error e => cases h
    | ok c =>
      cases h
      exact ⟨b, c, rfl, rfl, rfl⟩

mutual

/-- A tree is found again in its value. -/
theorem ofJson?_of_toJson? : (t : Tree α) → {v : Json} → t.toJson? = .ok v → ofJson? v = some t
  | number _, _, h | symbol _, _, h => by
    cases h
    rfl
  | sequence head tail, _, h => by
    rw [toJson?] at h
    obtain ⟨item, items, hh, ht, rfl⟩ := exists_of_bind_map h
    rw [ofJson?, ofJsonAll?, ofJson?_of_toJson? head hh, ofJsonAll?_of_toJsonAll? tail ht]
    rfl

theorem ofJsonAll?_of_toJsonAll? : (ts : List (Tree α)) → {vs : List Json} →
    toJsonAll? ts = .ok vs → ofJsonAll? vs = some ts
  | [], _, h => by
    cases h
    rfl
  | t :: ts, _, h => by
    rw [toJsonAll?] at h
    obtain ⟨item, items, hh, ht, rfl⟩ := exists_of_bind_map h
    rw [ofJsonAll?, ofJson?_of_toJson? t hh, ofJsonAll?_of_toJsonAll? ts ht]
    rfl

end

/-! ### The stack machine -/

/-- The items behind the first one, each with a separator in front of it. -/
def tailText (style : Style) (level : Nat) (items : List Json) : String :=
  String.join ((Json.writeItems style.layout (level + 1) items).map
    (style.layout.separator level ++ ·))

theorem intercalate_cons (separator text : String) (texts : List String) :
    separator.intercalate (text :: texts) = text ++ String.join (texts.map (separator ++ ·)) := by
  induction texts generalizing text with
  | nil => rw [String.intercalate_singleton, List.map_nil, String.join_nil, String.append_empty]
  | cons next texts ih =>
    rw [String.intercalate_cons_cons, ih, List.map_cons, String.join_cons]
    simp only [String.append_assoc]

theorem writeAt_array (style : Style) (level : Nat) (item : Json) (items : List Json) :
    Json.writeAt style.layout level (.array (item :: items)) =
      "[" ++ style.layout.opening level ++
        (item.writeAt style.layout (level + 1) ++ tailText style level items) ++
        (style.layout.closing level ++ "]") := by
  rw [Json.writeAt, Json.writeItems, Json.Layout.enclose, intercalate_cons, tailText]
  · simp only [String.append_assoc]
  · exact List.cons_ne_nil _ _

mutual

/-- The machine writes the text of a tree and goes on with what is pending below, or it stops at
the first foreign leaf. -/
theorem renderPending_tree (style : Style) : (t : Tree α) → (out : String) → (level : Nat) →
    (stack : List (Pending α)) → renderPending style out (.tree t level :: stack) =
      t.toJson?.bind fun v => renderPending style (out ++ v.writeAt style.layout level) stack
  | number n, out, level, stack => by
    rw [renderPending]
    rfl
  | symbol s, out, level, stack => by
    rw [renderPending]
    rfl
  | foreign a, out, level, stack => by
    rw [renderPending]
    rfl
  | sequence head tail, out, level, stack => by
    rw [renderPending, renderPending_tree style head, toJson?]
    cases head.toJson? with
    | error a => rfl
    | ok item =>
      show renderPending _ _ _ = Except.bind ((toJsonAll? tail).map _) _
      rw [renderPending_separated style tail]
      cases toJsonAll? tail with
      | error a => rfl
      | ok items =>
        show renderPending _ _ (.text _ :: stack) = renderPending _ _ stack
        rw [renderPending, writeAt_array]
        simp only [String.append_assoc]

/-- So it writes the items behind the first one of a sequence. -/
theorem renderPending_separated (style : Style) : (ts : List (Tree α)) → (out : String) →
    (level : Nat) → (stack : List (Pending α)) →
    renderPending style out
      (Pending.separated (style.layout.separator level) (level + 1) ts ++ stack) =
      (toJsonAll? ts).bind fun items =>
        renderPending style (out ++ tailText style level items) stack
  | [], out, level, stack => by
    show renderPending style out stack = renderPending style (out ++ String.join []) stack
    rw [String.join_nil, String.append_empty]
  | t :: ts, out, level, stack => by
    rw [Pending.separated, List.cons_append, List.cons_append, renderPending,
      renderPending_tree style t, toJsonAll?]
    cases t.toJson? with
    | error a => rfl
    | ok item =>
      show renderPending _ _ _ = Except.bind ((toJsonAll? ts).map _) _
      rw [renderPending_separated style ts]
      cases toJsonAll? ts with
      | error a => rfl
      | ok items =>
        show renderPending _ _ stack = renderPending _ _ stack
        rw [tailText, tailText, Json.writeItems, List.map_cons, String.join_cons]
        simp only [String.append_assoc]

end

/-- A tree is written as the JSON value for which it stands, or its first foreign leaf is found. -/
theorem render?_eq (style : Style) (t : Tree α) :
    t.render? style = t.toJson?.map (Json.write style.layout) := by
  rw [render?, renderPending_tree]
  cases t.toJson? with
  | error a => rfl
  | ok v =>
    show renderPending style ("" ++ v.writeAt style.layout 0) [] = _
    rw [renderPending, String.empty_append]
    rfl

/-! ### Reading a text back -/

/-- The tree of which a JSON text is written. -/
def ofText? (text : String) : Option (Tree α) := (Json.read? text).bind ofJson?

theorem ofText?_of_render? {style : Style} {t : Tree α} {text : String}
    (h : t.render? style = .ok text) : ofText? text = some t := by
  rw [render?_eq] at h
  cases hv : t.toJson? with
  | error a =>
    rw [hv] at h
    cases h
  | ok v =>
    rw [hv] at h
    cases h
    rw [ofText?, Json.read?_write]
    exact ofJson?_of_toJson? t hv

theorem render?_eq_ok (style : Style) (t : ParseTree) : t.render? style = .ok (t.render style) := by
  rw [render]
  split
  next text h => exact h

/-- In both styles, different trees have different texts. -/
theorem render_inj (style : Style) (t t' : ParseTree) :
    t.render style = t'.render style ↔ t = t' := by
  constructor
  · intro h
    have ht : ofText? (t.render style) = some t := ofText?_of_render? (render?_eq_ok style t)
    have ht' : ofText? (t'.render style) = some t' := ofText?_of_render? (render?_eq_ok style t')
    rw [h, ht'] at ht
    exact (Option.some.inj ht).symm
  · exact congrArg (render style)

end LispReader.Tree
