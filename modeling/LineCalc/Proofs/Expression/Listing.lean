import LineCalc.Proofs.Expression

/-!
# The listings of an expression

A postorder is read back with the trees at hand that the tokens so far have made, the last one first. An
operand is a tree by itself, and an operator takes its operands from the trees in front of it. No token is
lost on the way (`postorders_of_join?`), so what is read are the postorders and nothing else, and no two
expressions have the same one. The inorder of an expression has the tokens of the postorder in another
order, but the operands in the same order. It is what is left of a written expression without its
parentheses.
-/

namespace LineCalc

namespace Expression

section Decoding

/-- The trees behind a token, made from those in front of it; the last tree comes first. -/
def join? (trees : List Expression) (t : Token) : Option (List Expression) :=
  match t.operand?, t.symbol?, trees with
  | some a, _, trees => some (operand a :: trees)
  | none, some .negation, e :: trees => some (negation e :: trees)
  | none, some (.binary op), right :: left :: trees => some (binary op left right :: trees)
  | _, _, _ => none

/-- The expression with the tokens as its postorder, if there is one. -/
def ofPostorder? (ts : List Token) : Option Expression :=
  match ts.foldlM join? [] with
  | some [e] => some e
  | _ => none

/-- The postorders of trees, one after the other; the last tree comes first. -/
def postorders (trees : List Expression) : List Token := trees.reverse.flatMap postorder

variable {trees trees' : List Expression} {t : Token} {ts : List Token} {e : Expression}

/-- The first tree was made last, so it is listed last. -/
@[simp]
lemma postorders_cons (e : Expression) (trees : List Expression) :
    postorders (e :: trees) = postorders trees ++ e.postorder := by
  simp [postorders]

/-- An operand is one more tree. -/
@[simp]
lemma join?_token (a : Operand) (trees : List Expression) :
    join? trees a.token = some (operand a :: trees) := by
  simp [join?]

/-- A negation takes the first tree. -/
@[simp]
lemma join?_negation (e : Expression) (trees : List Expression) :
    join? (e :: trees) (.ofSymbol .negation) = some (negation e :: trees) := by
  simp [join?, Token.ofSymbol, Token.operand?, Token.symbol?, Token.char?]

/-- A binary operator takes the first two trees, the right one first. -/
@[simp]
lemma join?_binary (op : BinaryOperator) (left right : Expression) (trees : List Expression) :
    join? (right :: left :: trees) (.ofSymbol (.binary op)) = some (binary op left right :: trees) := by
  simp [join?, Token.ofSymbol, Token.operand?, Token.symbol?, Token.char?]

/-- A postorder adds its tree to the trees in front of it. -/
lemma foldlM_join? (e : Expression) (trees : List Expression) :
    e.postorder.foldlM join? trees = some (e :: trees) := by
  induction e generalizing trees with
  | operand a => simp [postorder]
  | negation e ih => simp [postorder, ih]
  | binary op left right ihl ihr => simp [postorder, ihl, ihr]

/-- A token stands behind the tokens of the trees that it takes. -/
lemma postorders_of_join? (joined : join? trees t = some trees') :
    postorders trees' = postorders trees ++ [t] := by
  unfold join? at joined
  split at joined
  · rename_i a found
    cases joined
    rw [postorders_cons, postorder, Token.token_of_operand? found]
  · rename_i found
    cases joined
    rw [postorders_cons, postorders_cons, postorder, Token.ofSymbol_of_symbol? found, List.append_assoc]
  · rename_i found
    cases joined
    simp [postorder, Token.ofSymbol_of_symbol? found]
  · cases joined

/-- Tokens that are joined to trees are listed behind these. -/
lemma postorders_of_foldlM (joined : ts.foldlM join? trees = some trees') :
    postorders trees' = postorders trees ++ ts := by
  induction ts generalizing trees with
  | nil =>
    cases joined
    exact (List.append_nil _).symm
  | cons t ts ih =>
    obtain ⟨trees₁, one, joined⟩ := Option.bind_eq_some_iff.1 joined
    rw [ih joined, postorders_of_join? one, List.append_assoc]
    rfl

/-- Exactly the postorders are read. -/
theorem ofPostorder?_eq_some_iff : ofPostorder? ts = some e ↔ e.postorder = ts := by
  constructor
  · intro found
    unfold ofPostorder? at found
    split at found
    · rename_i joined
      cases found
      have whole := postorders_of_foldlM joined
      rw [postorders_cons] at whole
      exact List.append_cancel_left whole
    · cases found
  · rintro rfl
    rw [ofPostorder?, foldlM_join?]

-- The tree that was read last is the right operand.
example : ofPostorder? [.integer 8, .integer 2, .symbol '-'] =
    some (binary .subtract (operand (.integer 8)) (operand (.integer 2))) := rfl

/-- No two expressions have the same postorder. -/
theorem postorder_injective : Function.Injective postorder := by
  intro e e' same
  have found := ofPostorder?_eq_some_iff.2 same
  rw [ofPostorder?_eq_some_iff.2 rfl] at found
  exact (Option.some.inj found).symm

end Decoding

section Order

open scoped List

/-- Both listings have the same tokens, each as often. -/
lemma inorder_perm_postorder (e : Expression) : e.inorder.Perm e.postorder := by
  induction e with
  | operand a => exact .refl _
  | negation e ih =>
    calc
      .ofSymbol .negation :: e.inorder
      _ ~ .ofSymbol .negation :: e.postorder := ih.cons _
      _ ~ e.postorder ++ [.ofSymbol .negation] := (List.perm_append_singleton _ _).symm
  | binary op left right ihl ihr =>
    calc
      left.inorder ++ .ofSymbol (.binary op) :: right.inorder
      _ ~ left.postorder ++ .ofSymbol (.binary op) :: right.postorder := ihl.append (ihr.cons _)
      _ ~ left.postorder ++ (right.postorder ++ [.ofSymbol (.binary op)]) :=
        (List.perm_append_singleton _ _).symm.append_left _
      _ = left.postorder ++ right.postorder ++ [.ofSymbol (.binary op)] := (List.append_assoc _ _ _).symm

/-- Both listings have the operands from left to right. -/
lemma filter_isOperand_postorder (e : Expression) :
    e.postorder.filter Token.isOperand = e.operands.map Operand.token := by
  induction e with
  | operand a => simp [postorder, operands]
  | negation e ih => simp [postorder, operands, ih]
  | binary op left right ihl ihr => simp [postorder, operands, ihl, ihr]

/-- The inorder has the operands from left to right. -/
lemma filter_isOperand_inorder (e : Expression) :
    e.inorder.filter Token.isOperand = e.operands.map Operand.token := by
  induction e with
  | operand a => simp [inorder, operands]
  | negation e ih => simp [inorder, operands, ih]
  | binary op left right ihl ihr => simp [inorder, operands, ihl, ihr]

end Order

end Expression

namespace Token

/-- Negations and binary operators. -/
def isOperator (t : Token) : Bool := t.symbol?.any fun s => s.arity ≠ .grouping

/-- Whether a token is one of the two parentheses. -/
def isParenthesis (t : Token) : Bool := t.symbol?.any fun s => s.arity = .grouping

/-- The tokens without the parentheses. -/
def ungrouped (ts : List Token) : List Token := ts.filter (!·.isParenthesis)

/-- An operand is no parenthesis. -/
@[simp]
lemma isParenthesis_token (a : Operand) : a.token.isParenthesis = false := by
  simp [isParenthesis]

/-- A symbol is a parenthesis if it groups. -/
@[simp]
lemma isParenthesis_ofSymbol (s : Symbol) : (ofSymbol s).isParenthesis = decide (s.arity = .grouping) := by
  simp [isParenthesis]

/-- A parenthesis is no operand. -/
lemma isOperand_of_isParenthesis {t : Token} (group : t.isParenthesis) : t.isOperand = false := by
  cases t with
  | symbol c => rfl
  | _ => cases group

/-- A parenthesis is no operator. -/
lemma isOperator_of_isParenthesis {t : Token} (group : t.isParenthesis) : t.isOperator = false := by
  obtain ⟨s, meant, grouping⟩ := (Option.any_eq_true _ _).1 group
  rw [isOperator, meant]
  simpa using grouping

/-- What passes a test that parentheses fail is still there without the parentheses. -/
lemma filter_ungrouped {test : Token → Bool} (fails : ∀ {t : Token}, t.isParenthesis → test t = false)
    (ts : List Token) : (ungrouped ts).filter test = ts.filter test := by
  rw [ungrouped, List.filter_filter]
  congr 1
  funext t
  cases group : t.isParenthesis with
  | false => exact Bool.and_true _
  | true => exact (Bool.and_false _).trans (fails group).symm

/-- Every token is left or was a parenthesis. -/
lemma length_ungrouped (ts : List Token) : (ungrouped ts).length + ts.countP isParenthesis = ts.length := by
  rw [List.length_eq_countP_add_countP isParenthesis (l := ts), ungrouped, ← List.countP_eq_length_filter,
    Nat.add_comm]
  simp

end Token

namespace Writing

/-- Without its parentheses, what is written is the inorder of the expression. -/
lemma ungrouped_tokens (w : Writing) : Token.ungrouped w.tokens = w.expression.inorder := by
  induction w with
  | operand a => simp [Token.ungrouped, tokens, expression, Expression.inorder]
  | negation w ih =>
    simpa [Token.ungrouped, tokens, expression, Expression.inorder, Symbol.arity] using ih
  | binary op left right ihl ihr =>
    rw [tokens, expression, Expression.inorder, ← ihl, ← ihr]
    simp [Token.ungrouped, Symbol.arity]
  | group w ih => simpa [Token.ungrouped, tokens, expression, Symbol.arity] using ih

/-- The operands that are written are those of the expression, in the same order. -/
lemma filter_isOperand_tokens (w : Writing) :
    w.tokens.filter Token.isOperand = w.expression.operands.map Operand.token := by
  rw [← Token.filter_ungrouped Token.isOperand_of_isParenthesis, ungrouped_tokens,
    Expression.filter_isOperand_inorder]

/-- The operands of an expression are among the tokens that it is written with. -/
lemma mem_tokens_of_mem_operands {w : Writing} {a : Operand} (mem : a ∈ w.expression.operands) :
    a.token ∈ w.tokens := by
  have listed : a.token ∈ w.tokens.filter Token.isOperand := by
    rw [filter_isOperand_tokens]
    exact List.mem_map_of_mem mem
  exact (List.mem_filter.1 listed).1

end Writing

end LineCalc
