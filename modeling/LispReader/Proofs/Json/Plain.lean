import LispReader.Proofs.Characters
import LispReader.Json.Value

/-! Written JSON is printable ASCII.

A string is written in printable ASCII whatever its characters are, since the escapes are, and so
are numerals and marks. Only the line breaks between the parts of an indented value are not; a
value without them is a single line: `plain_writeAt`. -/
namespace LispReader.Json
open Text

theorem plain_unit (n : Nat) : ∀ c ∈ unit n, IsPlain c :=
  List.forall_mem_cons.2 ⟨by decide, List.forall_mem_cons.2 ⟨by decide, plain_fixed 4 n⟩⟩

theorem plain_escape (c : Char) : ∀ d ∈ escape c, IsPlain d := by
  by_cases h : c ∈ ['\x22', '\\', '\n', '\r', '\t', '\x08', '\x0c']
  · simp only [List.mem_cons, List.not_mem_nil, or_false] at h
    rcases h with rfl | rfl | rfl | rfl | rfl | rfl | rfl <;> exact only_ofList.1 (by decide)
  simp only [List.mem_cons, List.not_mem_nil, or_false, not_or] at h
  obtain ⟨hq, hb, hn, hr, ht, hbs, hff⟩ := h
  simp only [escape, hq, hb, hn, hr, ht, hbs, hff, or_self, if_false]
  split
  · next hp => exact List.forall_mem_singleton.2 hp
  split
  · exact plain_unit _
  · exact List.forall_mem_append.2 ⟨plain_unit _, plain_unit _⟩

theorem plain_string (s : String) : Only IsPlain (string s) := by
  rw [string, only_ofList, List.cons_append, List.forall_mem_cons, List.forall_mem_append]
  refine ⟨by decide, fun d hd => ?_, List.forall_mem_singleton.2 (by decide)⟩
  obtain ⟨c, -, hc⟩ := List.mem_flatMap.1 hd
  exact plain_escape c d hc

/-! ### Values without line breaks -/

variable {layout : Layout}

theorem plain_marks (hl : layout ≠ .indented) (level : Nat) :
    Only IsPlain (layout.opening level) ∧ Only IsPlain (layout.separator level) ∧
      Only IsPlain (layout.closing level) ∧ Only IsPlain layout.colon := by
  cases layout with
  | compact =>
    have hs : Only IsPlain "," := by decide
    have hc : Only IsPlain ":" := by decide
    exact ⟨only_empty, hs, only_empty, hc⟩
  | spaced =>
    have hs : Only IsPlain ", " := by decide
    have hc : Only IsPlain ": " := by decide
    exact ⟨only_empty, hs, only_empty, hc⟩
  | indented => exact absurd rfl hl

theorem plain_enclose (hl : layout ≠ .indented) {level : Nat} {first last : String}
    {items : List String} (hf : Only IsPlain first) (he : Only IsPlain last)
    (hi : ∀ item ∈ items, Only IsPlain item) :
    Only IsPlain (layout.enclose level first last items) := by
  obtain ⟨ho, hs, hc, -⟩ := plain_marks hl level
  cases items with
  | nil => exact only_append.2 ⟨hf, he⟩
  | cons item items =>
    have hm := only_intercalate hs hi
    rw [Layout.enclose]
    · simp only [only_append]
      exact ⟨⟨⟨⟨hf, ho⟩, hm⟩, hc⟩, he⟩
    · exact List.cons_ne_nil item items

mutual

theorem plain_writeAt (hl : layout ≠ .indented) (level : Nat) : (v : Json) →
    Only IsPlain (v.writeAt layout level)
  | null => by
    show Only IsPlain "null"
    decide
  | integer n => plain_write n
  | text s => plain_string s
  | array items => plain_enclose hl (by decide) (by decide) (plain_writeItems hl (level + 1) items)
  | object members =>
    plain_enclose hl (by decide) (by decide) (plain_writeMembers hl (level + 1) members)

theorem plain_writeItems (hl : layout ≠ .indented) (level : Nat) : (items : List Json) →
    ∀ text ∈ writeItems layout level items, Only IsPlain text
  | [] => nofun
  | item :: items =>
    List.forall_mem_cons.2 ⟨plain_writeAt hl level item, plain_writeItems hl level items⟩

theorem plain_writeMembers (hl : layout ≠ .indented) (level : Nat) :
    (members : List (String × Json)) →
    ∀ text ∈ writeMembers layout level members, Only IsPlain text
  | [] => nofun
  | member :: members =>
    List.forall_mem_cons.2
      ⟨plain_writeMember hl level member, plain_writeMembers hl level members⟩

theorem plain_writeMember (hl : layout ≠ .indented) (level : Nat) : (member : String × Json) →
    Only IsPlain (writeMember layout level member)
  | (name, value) => by
    rw [writeMember, only_append, only_append]
    exact ⟨⟨plain_string name, (plain_marks hl level).2.2.2⟩, plain_writeAt hl level value⟩

end

end LispReader.Json
