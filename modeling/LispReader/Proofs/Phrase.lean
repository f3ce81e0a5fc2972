import LispReader.Grammar.Standard

/-! The language: which words of tokens stand for which trees.

A word is a list of tokens in front of the end of input. The grammar of the language is written
here as four families of derivations, one for each thing that a word can be: an expression, the
body of a parenthesised expression, the operands of a form, or the items of an application. A
derivation is a value, so that its uniqueness can be stated: `Expression.eq_of_word` says that a
word has at most one derivation and one tree. It rests on `Expression.kinds_eq`: the kinds of the
tokens alone decide where a phrase ends. -/
namespace LispReader

namespace Form

theorem ofLeader?_eq_some_iff {kind : Kind} {f : Form} :
    ofLeader? kind = some f ↔ f ∈ all ∧ f.leader = kind := by
  constructor
  · intro h
    exact ⟨List.mem_of_find?_eq_some h, leader_of_ofLeader? h⟩
  · rintro ⟨hf, rfl⟩
    revert f
    decide

/-- A form is known by its leader. -/
theorem eq_of_leader_eq {f g : Form} (hf : f ∈ all) (hg : g ∈ all) (h : f.leader = g.leader) :
    f = g := by
  have h₁ := ofLeader?_eq_some_iff.2 ⟨hf, h⟩
  have h₂ := ofLeader?_eq_some_iff.2 ⟨hg, rfl⟩
  exact Option.some.inj (h₁.symm.trans h₂)

/-- No leader begins an expression. -/
theorem leader_not_mem_expressionFirst {f : Form} (h : f ∈ all) :
    f.leader ∉ Grammar.expressionFirst := by
  revert f
  decide

theorem ofLeader?_eq_none {kind : Kind} (h : kind ∈ Grammar.expressionFirst) :
    ofLeader? kind = none := by
  refine Option.eq_none_iff_forall_ne_some.2 fun f hf => ?_
  obtain ⟨known, rfl⟩ := ofLeader?_eq_some_iff.1 hf
  exact leader_not_mem_expressionFirst known h

theorem carriesLexeme_leader {f : Form} (h : f ∈ all) : f.leader.carriesLexeme = false := by
  revert f
  decide

end Form

/-- The kinds of the tokens of a word. -/
def kinds (w : List Token) : List Kind := w.map Token.kind

@[simp] theorem kinds_nil : kinds [] = [] := rfl

@[simp] theorem kinds_cons (token : Token) (w : List Token) :
    kinds (token :: w) = token.kind :: kinds w := rfl

@[simp] theorem kinds_append (w w' : List Token) : kinds (w ++ w') = kinds w ++ kinds w' :=
  List.map_append

@[simp] theorem length_kinds (w : List Token) : (kinds w).length = w.length := List.length_map _

namespace Phrase

/-! ### Derivations -/

mutual

/-- The derivations of an expression: the word is its tokens, the tree what it stands for. -/
inductive Expression : List Token → ParseTree → Type
  | number (token : Token) {lexeme : String} {value : Int} (kind : token.kind = .number)
      (spelled : token.lexeme = some lexeme) (denotes : Numeral.read lexeme = .ok value) :
      Expression [token] (.number value)
  | identifier (token : Token) {name : String} (kind : token.kind = .identifier)
      (spelled : token.lexeme = some name) : Expression [token] (.symbol name)
  | parenthesized (opening closing : Token) {w : List Token} {t : ParseTree}
      (opens : opening.kind = .leftParen) (body : Body w t) (closes : closing.kind = .rightParen) :
      Expression (opening :: (w ++ [closing])) t

/-- The body of a parenthesised expression: a leader and the operands of its form, or one item
and any number of further ones. -/
inductive Body : List Token → ParseTree → Type
  | form (f : Form) (leader : Token) {w : List Token} {ts : List ParseTree} (known : f ∈ Form.all)
      (leads : leader.kind = f.leader) (operands : Operands f.operands w ts) :
      Body (leader :: w) (.sequence (.symbol f.label) ts)
  | application {w : List Token} {head : ParseTree} {tail : List ParseTree}
      (items : Items w (head :: tail)) : Body w (.sequence head tail)

/-- Operands in their order; where an identifier is due, nothing but an identifier token stands. -/
inductive Operands : List Operand → List Token → List ParseTree → Type
  | nil : Operands [] [] []
  | expression {ops : List Operand} {w w' : List Token} {t : ParseTree} {ts : List ParseTree}
      (first : Expression w t) (rest : Operands ops w' ts) :
      Operands (.expression :: ops) (w ++ w') (t :: ts)
  | identifier (token : Token) {ops : List Operand} {name : String} {w : List Token}
      {ts : List ParseTree} (kind : token.kind = .identifier) (spelled : token.lexeme = some name)
      (rest : Operands ops w ts) : Operands (.identifier :: ops) (token :: w) (.symbol name :: ts)

/-- Any number of expressions. -/
inductive Items : List Token → List ParseTree → Type
  | nil : Items [] []
  | cons {w w' : List Token} {t : ParseTree} {ts : List ParseTree} (first : Expression w t)
      (rest : Items w' ts) : Items (w ++ w') (t :: ts)

end

/-! ### The tokens of a derivation -/

mutual

/-- The tokens at the leaves of a derivation, from left to right. -/
def Expression.leaves {w : List Token} {t : ParseTree} : Expression w t → List Token
  | .number token _ _ _ | .identifier token _ _ => [token]
  | .parenthesized opening closing _ body _ => opening :: (body.leaves ++ [closing])

def Body.leaves {w : List Token} {t : ParseTree} : Body w t → List Token
  | .form _ leader _ _ operands => leader :: operands.leaves
  | .application items => items.leaves

def Operands.leaves {ops : List Operand} {w : List Token} {ts : List ParseTree} :
    Operands ops w ts → List Token
  | .nil => []
  | .expression first rest => first.leaves ++ rest.leaves
  | .identifier token _ _ rest => token :: rest.leaves

def Items.leaves {w : List Token} {ts : List ParseTree} : Items w ts → List Token
  | .nil => []
  | .cons first rest => first.leaves ++ rest.leaves

end

mutual

/-- A derivation uses every token of its word once, in the order of the word. -/
theorem Expression.leaves_eq : {w : List Token} → {t : ParseTree} → (d : Expression w t) →
    d.leaves = w
  | _, _, .number _ _ _ _ | _, _, .identifier _ _ _ => rfl
  | _, _, .parenthesized _ _ _ body _ => by rw [Expression.leaves, body.leaves_eq]

theorem Body.leaves_eq : {w : List Token} → {t : ParseTree} → (d : Body w t) → d.leaves = w
  | _, _, .form _ _ _ _ operands => by rw [Body.leaves, operands.leaves_eq]
  | _, _, .application items => by rw [Body.leaves, items.leaves_eq]

theorem Operands.leaves_eq : {ops : List Operand} → {w : List Token} → {ts : List ParseTree} →
    (d : Operands ops w ts) → d.leaves = w
  | _, _, _, .nil => rfl
  | _, _, _, .expression first rest => by rw [Operands.leaves, first.leaves_eq, rest.leaves_eq]
  | _, _, _, .identifier _ _ _ rest => by rw [Operands.leaves, rest.leaves_eq]

theorem Items.leaves_eq : {w : List Token} → {ts : List ParseTree} → (d : Items w ts) →
    d.leaves = w
  | _, _, .nil => rfl
  | _, _, .cons first rest => by rw [Items.leaves, first.leaves_eq, rest.leaves_eq]

end

/-- There are as many operands as the form requires. -/
theorem Operands.length_eq : {ops : List Operand} → {w : List Token} → {ts : List ParseTree} →
    Operands ops w ts → ts.length = ops.length
  | _, _, _, .nil => rfl
  | _, _, _, .expression _ rest => congrArg (· + 1) rest.length_eq
  | _, _, _, .identifier _ _ _ rest => congrArg (· + 1) rest.length_eq

/-! ### Where phrases begin and end -/

/-- An expression begins with a number, an identifier or a left parenthesis. -/
theorem Expression.exists_head {w : List Token} {t : ParseTree} (d : Expression w t) :
    ∃ token rest, w = token :: rest ∧ token.kind ∈ Grammar.expressionFirst := by
  cases d with
  | number token kind => exact ⟨token, [], rfl, by rw [kind]; decide⟩
  | identifier token kind => exact ⟨token, [], rfl, by rw [kind]; decide⟩
  | parenthesized opening _ opens => exact ⟨opening, _, rfl, by rw [opens]; decide⟩

theorem Items.exists_head {w : List Token} {t : ParseTree} {ts : List ParseTree}
    (d : Items w (t :: ts)) :
    ∃ token rest, w = token :: rest ∧ token.kind ∈ Grammar.expressionFirst := by
  cases d with
  | cons first rest =>
    obtain ⟨token, rest', rfl, hk⟩ := first.exists_head
    exact ⟨token, _, rfl, hk⟩

mutual

/-- No expression is continued to another one: the kinds decide where it ends. -/
theorem Expression.kinds_eq {w' : List Token} {t' : ParseTree} {r r' : List Kind}
    (d' : Expression w' t') : {w : List Token} → {t : ParseTree} → (d : Expression w t) →
    kinds w ++ r = kinds w' ++ r' → kinds w = kinds w'
  | _, _, .number token kind _ _, h => by
    cases d' with
    | number token' kind' => simp [kind, kind']
    | identifier token' kind' => simp [kind, kind'] at h
    | parenthesized opening' _ opens' => simp [kind, opens'] at h
  | _, _, .identifier token kind _, h => by
    cases d' with
    | number token' kind' => simp [kind, kind'] at h
    | identifier token' kind' => simp [kind, kind']
    | parenthesized opening' _ opens' => simp [kind, opens'] at h
  | _, _, .parenthesized opening closing opens body closes, h => by
    cases d' with
    | number token' kind' => simp [opens, kind'] at h
    | identifier token' kind' => simp [opens, kind'] at h
    | parenthesized opening' closing' opens' body' closes' =>
      simp only [kinds_cons, kinds_append, kinds_nil, List.cons_append, List.append_assoc,
        List.nil_append, List.cons.injEq, opens, opens', closes, closes', true_and] at h
      simp [opens, opens', closes, closes', body'.kinds_eq body h]
termination_by structural _ _ d => d

/-- A body is followed by a right parenthesis, which begins no further item. -/
theorem Body.kinds_eq {w' : List Token} {t' : ParseTree} {r r' : List Kind} (d' : Body w' t') :
    {w : List Token} → {t : ParseTree} → (d : Body w t) →
    kinds w ++ .rightParen :: r = kinds w' ++ .rightParen :: r' → kinds w = kinds w'
  | _, _, .form f leader known leads operands, h => by
    cases d' with
    | form f' leader' known' leads' operands' =>
      simp only [kinds_cons, List.cons_append, List.cons.injEq, leads, leads'] at h
      cases Form.eq_of_leader_eq known known' h.1
      simp only [kinds_cons, leads, leads', operands.kinds_eq operands' h.2]
    | application items' =>
      obtain ⟨token, rest, rfl, hk⟩ := items'.exists_head
      simp only [kinds_cons, List.cons_append, List.cons.injEq, leads] at h
      exact absurd (h.1 ▸ hk) (Form.leader_not_mem_expressionFirst known)
  | _, _, .application items, h => by
    cases d' with
    | form f' leader' known' leads' operands' =>
      obtain ⟨token, rest, rfl, hk⟩ := items.exists_head
      simp only [kinds_cons, List.cons_append, List.cons.injEq, leads'] at h
      exact absurd (h.1 ▸ hk) (Form.leader_not_mem_expressionFirst known')
    | application items' => exact items'.kinds_eq items h
termination_by structural _ _ d => d

theorem Operands.kinds_eq {r r' : List Kind} : {ops : List Operand} → {w w' : List Token} →
    {ts ts' : List ParseTree} → (d : Operands ops w ts) → (d' : Operands ops w' ts') →
    kinds w ++ r = kinds w' ++ r' → kinds w = kinds w'
  | _, _, _, _, _, .nil, .nil, _ => rfl
  | _, _, _, _, _, .expression first rest, .expression first' rest', h => by
    simp only [kinds_append, List.append_assoc] at h ⊢
    have hf := first'.kinds_eq first h
    rw [hf, List.append_cancel_left_eq] at h
    rw [hf, rest.kinds_eq rest' h]
  | _, _, _, _, _, .identifier _ _ _ rest, .identifier _ _ _ rest', h => by
    simp only [kinds_cons, List.cons_append, List.cons.injEq] at h ⊢
    exact ⟨h.1, rest.kinds_eq rest' h.2⟩
termination_by structural _ _ _ _ _ d => d

theorem Items.kinds_eq {w' : List Token} {ts' : List ParseTree} {r r' : List Kind}
    (d' : Items w' ts') : {w : List Token} → {ts : List ParseTree} → (d : Items w ts) →
    kinds w ++ .rightParen :: r = kinds w' ++ .rightParen :: r' → kinds w = kinds w'
  | _, _, .nil, h => by
    cases d' with
    | nil => rfl
    | cons first' rest' =>
      obtain ⟨token, rest, rfl, hk⟩ := first'.exists_head
      simp only [kinds_cons, List.cons_append, kinds_nil, List.nil_append,
        List.cons.injEq] at h
      exact absurd (h.1 ▸ hk) (by decide)
  | _, _, .cons first rest, h => by
    cases d' with
    | nil =>
      obtain ⟨token, rest, rfl, hk⟩ := first.exists_head
      simp only [kinds_cons, List.cons_append, kinds_nil, List.nil_append,
        List.cons.injEq] at h
      exact absurd (h.1 ▸ hk) (by decide)
    | cons first' rest' =>
      simp only [kinds_append, List.append_assoc] at h ⊢
      have hf := first'.kinds_eq first h
      rw [hf, List.append_cancel_left_eq] at h
      rw [hf, rest'.kinds_eq rest h]
termination_by structural _ _ d => d

end

/-! ### Uniqueness -/

/-- Where two words that begin with expressions are equal, the expressions are. -/
theorem Expression.append_inj {w w' r r' : List Token} {t t' : ParseTree} (d : Expression w t)
    (d' : Expression w' t') (h : w ++ r = w' ++ r') : w = w' ∧ r = r' := by
  have hk : kinds w ++ kinds r = kinds w' ++ kinds r' := by
    rw [← kinds_append, h, kinds_append]
  exact List.append_inj h (by simpa using congrArg List.length (d'.kinds_eq d hk))

mutual

theorem Expression.eq_of_word {w' : List Token} {t' : ParseTree} (d' : Expression w' t') :
    {w : List Token} → {t : ParseTree} → (d : Expression w t) → w = w' → t = t' ∧ HEq d d'
  | _, _, .number token kind spelled denotes, h => by
    cases d' with
    | number token' kind' spelled' denotes' =>
      cases h
      cases spelled.symm.trans spelled'
      cases denotes.symm.trans denotes'
      exact ⟨rfl, HEq.rfl⟩
    | identifier token' kind' =>
      cases h
      exact absurd (kind.symm.trans kind') nofun
    | parenthesized opening' _ opens' => simp at h
  | _, _, .identifier token kind spelled, h => by
    cases d' with
    | number token' kind' =>
      cases h
      exact absurd (kind.symm.trans kind') nofun
    | identifier token' kind' spelled' =>
      cases h
      cases spelled.symm.trans spelled'
      exact ⟨rfl, HEq.rfl⟩
    | parenthesized opening' _ opens' => simp at h
  | _, _, .parenthesized opening closing opens body closes, h => by
    cases d' with
    | number token' kind' => simp at h
    | identifier token' kind' => simp at h
    | parenthesized opening' closing' opens' body' closes' =>
      obtain ⟨rfl, hb⟩ := List.cons.inj h
      obtain ⟨hw, hc⟩ := List.append_inj' hb rfl
      cases hc
      obtain ⟨rfl, hb⟩ := body'.eq_of_word body hw
      cases hw
      cases hb
      exact ⟨rfl, HEq.rfl⟩
termination_by structural _ _ d => d

theorem Body.eq_of_word {w' : List Token} {t' : ParseTree} (d' : Body w' t') :
    {w : List Token} → {t : ParseTree} → (d : Body w t) → w = w' → t = t' ∧ HEq d d'
  | _, _, .form f leader known leads operands, h => by
    cases d' with
    | form f' leader' known' leads' operands' =>
      obtain ⟨rfl, hw⟩ := List.cons.inj h
      cases Form.eq_of_leader_eq known known' (leads.symm.trans leads')
      obtain ⟨rfl, ho⟩ := operands.eq_of_word operands' hw
      cases hw
      cases ho
      exact ⟨rfl, HEq.rfl⟩
    | application items' =>
      obtain ⟨token, rest, rfl, hk⟩ := items'.exists_head
      obtain ⟨rfl, -⟩ := List.cons.inj h
      exact absurd (leads ▸ hk) (Form.leader_not_mem_expressionFirst known)
  | _, _, .application items, h => by
    cases d' with
    | form f' leader' known' leads' operands' =>
      obtain ⟨token, rest, rfl, hk⟩ := items.exists_head
      obtain ⟨rfl, -⟩ := List.cons.inj h
      exact absurd (leads' ▸ hk) (Form.leader_not_mem_expressionFirst known')
    | application items' =>
      obtain ⟨hts, hi⟩ := items'.eq_of_word items h
      cases h
      cases hts
      cases hi
      exact ⟨rfl, HEq.rfl⟩
termination_by structural _ _ d => d

theorem Operands.eq_of_word : {ops : List Operand} → {w w' : List Token} →
    {ts ts' : List ParseTree} → (d : Operands ops w ts) → (d' : Operands ops w' ts') → w = w' →
    ts = ts' ∧ HEq d d'
  | _, _, _, _, _, .nil, .nil, _ => ⟨rfl, HEq.rfl⟩
  | _, _, _, _, _, .expression first rest, .expression first' rest', h => by
    obtain ⟨hf, hr⟩ := first.append_inj first' h
    obtain ⟨rfl, hdf⟩ := first'.eq_of_word first hf
    obtain ⟨rfl, hdr⟩ := rest.eq_of_word rest' hr
    cases hf
    cases hr
    cases hdf
    cases hdr
    exact ⟨rfl, HEq.rfl⟩
  | _, _, _, _, _, .identifier _ _ spelled rest, .identifier _ _ spelled' rest', h => by
    obtain ⟨rfl, hr⟩ := List.cons.inj h
    cases spelled.symm.trans spelled'
    obtain ⟨rfl, hdr⟩ := rest.eq_of_word rest' hr
    cases hr
    cases hdr
    exact ⟨rfl, HEq.rfl⟩
termination_by structural _ _ _ _ _ d => d

theorem Items.eq_of_word {w' : List Token} {ts' : List ParseTree} (d' : Items w' ts') :
    {w : List Token} → {ts : List ParseTree} → (d : Items w ts) → w = w' → ts = ts' ∧ HEq d d'
  | _, _, .nil, h => by
    cases d' with
    | nil => exact ⟨rfl, HEq.rfl⟩
    | cons first' rest' =>
      obtain ⟨token, rest, rfl, -⟩ := first'.exists_head
      simp at h
  | _, _, .cons first rest, h => by
    cases d' with
    | nil =>
      obtain ⟨token, rest, rfl, -⟩ := first.exists_head
      simp at h
    | cons first' rest' =>
      obtain ⟨hf, hr⟩ := first.append_inj first' h
      obtain ⟨rfl, hdf⟩ := first'.eq_of_word first hf
      obtain ⟨rfl, hdr⟩ := rest'.eq_of_word rest hr
      cases hf
      cases hr
      cases hdf
      cases hdr
      exact ⟨rfl, HEq.rfl⟩
termination_by structural _ _ d => d

end

end Phrase

end LispReader
