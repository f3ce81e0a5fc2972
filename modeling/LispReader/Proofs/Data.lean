import LispReader.Proofs.Rendering
import LispReader.Tree.Datum

/-! The data of trees.

The walk that writes the data of a tree keeps the sequences under construction on a stack. What it
writes of some items does not depend on the sequences around them, so it can be said by recursion
on the tree (`toDatum_eq`), with the order in which foreign leaves are met. A tree is written as
the JSON text of its data, in either style: `render_eq_write`. -/
namespace LispReader

/-! ### Data as JSON -/

mutual

/-- The JSON value of data; lists and tuples are arrays. -/
def Datum.json : Datum Empty → Json
  | .integer n => .integer n
  | .text s => .text s
  | .list items | .tuple items => .array (Datum.jsonAll items)

def Datum.jsonAll : List (Datum Empty) → List Json
  | [] => []
  | d :: ds => d.json :: Datum.jsonAll ds

end

namespace Tree

variable {α : Type}

/-! ### Recursion -/

mutual

/-- The data of a tree, or the foreign leaf that is met first: among the items of a sequence
itself before those of its nested sequences, and in the last nested sequence before the others. -/
def data? : Tree α → Except α (Datum Empty)
  | number n => .ok (.integer n)
  | symbol s => .ok (.text s)
  | foreign a => .error a
  | sequence head tail =>
    match (head :: tail).findSome? foreign? with
    | some a => .error a
    | none => (dataAll? tail).bind fun items => head.data?.map fun item => .list (item :: items)

def dataAll? : List (Tree α) → Except α (List (Datum Empty))
  | [] => .ok []
  | t :: ts => (dataAll? ts).bind fun items => t.data?.map fun item => item :: items

end

mutual

/-- The walk writes an item in front of what is written already, or stops at a foreign leaf. -/
theorem writeItems_cons : (t : Tree α) → (pending : List (Tree α)) →
    (written : List (Datum Empty)) → (outer : List (List (Tree α) × List (Datum Empty))) →
    writeItems (t :: pending) written outer =
      t.data?.bind fun item => writeItems pending (item :: written) outer
  | number _, pending, written, outer | symbol _, pending, written, outer
  | foreign _, pending, written, outer => by
    rw [writeItems]
    rfl
  | sequence head tail, pending, written, outer => by
    rw [writeItems, data?]
    cases (head :: tail).findSome? foreign? with
    | some a => rfl
    | none =>
      show writeItems (head :: tail).reverse [] ((pending, written) :: outer) = _
      rw [List.reverse_cons, writeItems_reverse_append tail]
      cases dataAll? tail with
      | error a => rfl
      | ok items =>
        show writeItems [head] (items ++ []) _ = Except.bind (head.data?.map _) _
        rw [writeItems_cons head, List.append_nil]
        cases head.data? with
        | error a => rfl
        | ok item =>
          show writeItems [] (item :: items) ((pending, written) :: outer) = _
          rw [writeItems]
          rfl

/-- Items are written from the last one to the first. -/
theorem writeItems_reverse_append : (ts pending : List (Tree α)) →
    (written : List (Datum Empty)) → (outer : List (List (Tree α) × List (Datum Empty))) →
    writeItems (ts.reverse ++ pending) written outer =
      (dataAll? ts).bind fun items => writeItems pending (items ++ written) outer
  | [], pending, written, outer => rfl
  | t :: ts, pending, written, outer => by
    rw [List.reverse_cons, List.append_assoc, List.singleton_append,
      writeItems_reverse_append ts, dataAll?]
    cases dataAll? ts with
    | error a => rfl
    | ok items =>
      show writeItems (t :: pending) (items ++ written) outer = Except.bind (t.data?.map _) _
      rw [writeItems_cons t]
      cases t.data? with
      | error a => rfl
      | ok item => rfl

end

theorem toDatum_eq (t : Tree α) : t.toDatum = t.data? := by
  cases t with
  | number n => rfl
  | symbol s => rfl
  | foreign a => rfl
  | sequence head tail =>
    rw [toDatum, data?]
    cases (head :: tail).findSome? foreign? with
    | some a => rfl
    | none =>
      show writeItems (head :: tail).reverse [] [] = _
      rw [List.reverse_cons, writeItems_reverse_append]
      cases dataAll? tail with
      | error a => rfl
      | ok items =>
        show writeItems [head] (items ++ []) [] = head.data?.map _
        rw [writeItems_cons, List.append_nil]
        cases head.data? with
        | error a => rfl
        | ok item =>
          show writeItems [] (item :: items) [] = _
          rw [writeItems]
          rfl

/-! ### Values -/

mutual

/-- A tree with data stands for the JSON value of these. -/
theorem toJson?_of_data? : (t : Tree α) → {d : Datum Empty} → t.data? = .ok d →
    t.toJson? = .ok d.json
  | number _, _, h | symbol _, _, h => by
    cases h
    rfl
  | foreign _, _, h => by cases h
  | sequence head tail, d, h => by
    rw [data?] at h
    cases hf : (head :: tail).findSome? foreign? with
    | some a =>
      rw [hf] at h
      cases h
    | none =>
      rw [hf] at h
      obtain ⟨items, item, ht, hh, rfl⟩ := exists_of_bind_map h
      rw [toJson?, toJson?_of_data? head hh, toJsonAll?_of_dataAll? tail ht]
      rfl

theorem toJsonAll?_of_dataAll? : (ts : List (Tree α)) → {ds : List (Datum Empty)} →
    dataAll? ts = .ok ds → toJsonAll? ts = .ok (Datum.jsonAll ds)
  | [], _, h => by
    cases h
    rfl
  | t :: ts, _, h => by
    rw [dataAll?] at h
    obtain ⟨items, item, ht, hh, rfl⟩ := exists_of_bind_map h
    rw [toJsonAll?, toJson?_of_data? t hh, toJsonAll?_of_dataAll? ts ht]
    rfl

end

/-- A tree without foreign leaves has data. -/
theorem exists_toDatum (t : ParseTree) : ∃ d, t.toDatum = .ok d := by
  cases t.toDatum with
  | error a => exact a.elim
  | ok d => exact ⟨d, rfl⟩

/-- The JSON value of the data of a tree without foreign leaves. -/
def json (t : ParseTree) : Json :=
  match t.toDatum with
  | .ok d => d.json

theorem toJson?_eq_ok (t : ParseTree) : t.toJson? = .ok t.json := by
  rw [json, toDatum_eq]
  split
  next d h => exact toJson?_of_data? t h

theorem render_eq_write (style : Style) (t : ParseTree) :
    t.render style = t.json.write style.layout := by
  have h := render?_eq_ok style t
  rw [render?_eq, toJson?_eq_ok] at h
  exact (Except.ok.inj h).symm

end Tree

end LispReader
