import TypeLang.Proofs.Declaration.Printing

/-!
# Type variables are declared before they are used

The tokens of a declaration are judged in their order, each by what stands before it: a reference to
a type variable wants a token before it that declares the variable.  `argTokens` are these tokens
and `readFront` is what is judged before them, so that a whole declaration is read in these two
parts (`read_eq`).

Only the variable at the head of an argument's type is judged.  One within brackets may be declared
nowhere, and the declaration is read all the same (`nestedVariable_read`), although a declaration is
written with all of its variables declared, those within brackets too.
-/

namespace TypeLang.Declaration

open Text

/-- The type variable at the head of a term, if there is one. -/
def TypeTerm.headVar? (t : TypeTerm) : Option String :=
  if t.head.generic then some t.head.name.last else none

/-- The type variable at the head of an argument's type. -/
def ArgType.headVar? : ArgType → Option String
  | flagWord => none
  | value type _ => type.headVar?

namespace Combinator

/-! ## The two parts of a declaration -/

/-- The tokens between the name and the equals sign of a text. -/
def argTokens (s : List Char) : List (List Char) :=
  match cutAtChar '=' (strip s) with
  | some (left, _) => (words left).tail
  | none => []

/-- What is judged before the arguments: the result, the name and the number. -/
def readFront (s : List Char) : Except CombinatorFault (TypeTerm × QualifiedName × UInt32) :=
  if (strip s).isEmpty then .error .empty
  else
    match cutAtChar '=' (strip s) with
    | none => .error .missingType
    | some (left, right) => do
      let result ← readResult (trim right)
      let (full, digits?) := halves (· == '#') (halves isBlank (trim left)).1
      match QualifiedName.read? full with
      | none => .error .missingName
      | some name =>
        let id ← readId (strip s) digits?
        return (result, name, id)

/-- A text is read by its front, and then by its tokens. -/
lemma read_eq (s : List Char) :
    read s = readFront s >>= fun (result, name, id) =>
      readArgs [] [] (argTokens s) >>= fun (vars, args) =>
        .ok ⟨name, id, args,
          if vars.contains result.head.name.last then result.markGeneric else result, .types⟩ := by
  unfold read readFront argTokens
  cases hempty : (strip s).isEmpty with
  | true => simp only [hempty]; rfl
  | false =>
      cases hcut : cutAtChar '=' (strip s) with
      | none => simp only [hempty, hcut]; rfl
      | some parts =>
          obtain ⟨left, right⟩ := parts
          have htokens := (halves_trim left).2
          cases hresult : readResult (trim right) with
          | error fault => simp only [hempty, hcut, hresult]; rfl
          | ok result =>
              simp only [hempty, hcut, hresult, htokens]
              generalize halves (· == '#') (halves isBlank (trim left)).1 = label
              cases QualifiedName.read? label.1 with
              | none => rfl
              | some name => cases readId (strip s) label.2 <;> rfl

/-! ## Tokens in their order -/

/-- The type variables that some tokens declare. -/
def declaredBy (tokens : List (List Char)) : List String :=
  tokens.filterMap Arg.declared?

/-- An argument is taken where it is in scope. -/
lemma readArgs_arg {token : List Char} {arg : Arg} (harg : Arg.read token = .ok arg)
    (vars : List String) (earlier : List Arg) (after : List (List Char)) :
    readArgs vars earlier (token :: after) =
      if isScoped vars earlier arg then readArgs vars (earlier ++ [arg]) after
      else .error (.invalidArg .undeclared) := by
  rw [readArgs, harg]

/-- Tokens are read one part after the other. -/
lemma readArgs_append (vars : List String) (earlier : List Arg) (before after : List (List Char)) :
    readArgs vars earlier (before ++ after) =
      readArgs vars earlier before >>= fun (vars, args) => readArgs vars args after := by
  fun_induction readArgs vars earlier before with
  | case1 => rfl
  | case2 vars earlier token rest name hread ih =>
      rw [List.cons_append, readArgs, hread]
      exact ih
  | case3 vars earlier token rest hread =>
      rw [List.cons_append, readArgs, hread]
      rfl
  | case4 vars earlier token rest fault hvariable htype hread =>
      rw [List.cons_append, readArgs, hread]
      cases fault with
      | declaresVariable name => exact (hvariable name rfl).elim
      | noType => exact (htype rfl).elim
      | _ => rfl
  | case5 vars earlier token rest arg hread hscoped ih =>
      rw [List.cons_append, readArgs_arg hread, if_pos hscoped]
      exact ih
  | case6 vars earlier token rest arg hread hscoped =>
      rw [List.cons_append, readArgs_arg hread, if_neg hscoped]
      rfl

/-- The arguments of some tokens are those that are read of them. -/
lemma args_of_readArgs {vars vars' : List String} {earlier args : List Arg}
    {tokens : List (List Char)} (h : readArgs vars earlier tokens = .ok (vars', args)) :
    args = earlier ++ tokens.filterMap fun token => (Arg.read token).toOption := by
  fun_induction readArgs vars earlier tokens with
  | case1 vars earlier =>
      cases h
      simp
  | case2 vars earlier token rest name hread ih =>
      rw [ih h, List.filterMap_cons_none]
      rw [hread]; rfl
  | case3 => cases h
  | case4 => cases h
  | case5 vars earlier token rest arg hread hscoped ih =>
      rw [ih h, List.filterMap_cons_some (b := arg), List.append_assoc, List.singleton_append]
      rw [hread]; rfl
  | case6 => cases h

/-- What the scope of an argument says of the variable at its head. -/
lemma mem_vars_of_isScoped {vars : List String} {earlier : List Arg} {arg : Arg}
    (h : isScoped vars earlier arg = true) {x : String} (hx : arg.type.headVar? = some x) :
    x ∈ vars := by
  obtain ⟨name, type⟩ := arg
  cases type with
  | flagWord => cases hx
  | value type gate =>
      simp only [ArgType.headVar?, TypeTerm.headVar?] at hx
      split_ifs at hx with hgeneric
      obtain rfl := Option.some.inj hx
      simpa [isScoped, hgeneric] using (Bool.and_eq_true_iff.1 h).1

/-- **A variable at the head of an argument's type is declared before the argument.**  A text that
uses one before it is declared is refused for that, unless something before it is at fault. -/
theorem headVars_declared (s : List Char) :
    (∀ d, read s = .ok d →
      d.args = (argTokens s).filterMap (fun token => (Arg.read token).toOption) ∧
      ∀ before token after arg, argTokens s = before ++ token :: after →
        Arg.read token = .ok arg →
          ∀ x ∈ arg.type.typeVars, arg.type.headVar? = some x → x ∈ declaredBy before) ∧
    ∀ before token after arg, argTokens s = before ++ token :: after → Arg.read token = .ok arg →
      (∃ x ∈ arg.type.typeVars, arg.type.headVar? = some x ∧ x ∉ declaredBy before) →
      (readFront s).toOption.isSome → (readArgs [] [] before).toOption.isSome →
        read s = .error (.invalidArg .undeclared) := by
  constructor
  · intro d hread
    rw [read_eq] at hread
    obtain ⟨⟨result, name, id⟩, -, hread⟩ := bind_eq_ok.1 hread
    obtain ⟨⟨vars, args⟩, hargs, hread⟩ := bind_eq_ok.1 hread
    cases hread
    refine ⟨args_of_readArgs hargs, ?_⟩
    intro before token after arg htokens harg x _ hx
    rw [htokens, readArgs_append] at hargs
    obtain ⟨⟨vars', earlier⟩, hbefore, hargs⟩ := bind_eq_ok.1 hargs
    have hvars : vars' = declaredBy before := vars_of_readArgs hbefore
    simp only [readArgs_arg harg] at hargs
    split_ifs at hargs with hscoped
    exact hvars ▸ mem_vars_of_isScoped hscoped hx
  · rintro before token after arg htokens harg ⟨x, -, hx, hundeclared⟩ hfront hbefore
    obtain ⟨⟨result, name, id⟩, hfront⟩ := Option.isSome_iff_exists.1 hfront
    obtain ⟨⟨vars, earlier⟩, hbefore⟩ := Option.isSome_iff_exists.1 hbefore
    have hbefore := eq_ok_of_toOption hbefore
    have hvars : vars = declaredBy before := vars_of_readArgs hbefore
    have hscoped : ¬ isScoped vars earlier arg = true := fun hscoped =>
      hundeclared (hvars ▸ mem_vars_of_isScoped hscoped hx)
    have hrefused : readArgs [] [] (argTokens s) = .error (.invalidArg .undeclared) := by
      rw [htokens, readArgs_append, hbefore]
      exact (readArgs_arg harg vars earlier after).trans (if_neg hscoped)
    rw [read_eq, eq_ok_of_toOption hfront, hrefused]
    rfl

section

/-- A declaration of a variable and a use behind it. -/
def queryText : List Char :=
  "f#00000001 {X:Type} n:int query:!X = X;".toList

/-- The use stands before the declaration. -/
def hastyText : List Char :=
  "f#00000001 n:int query:!X {X:Type} = X;".toList

theorem queryText_declared :
    (∃ d, read queryText = .ok d ∧ d.args.length = 2 ∧ argTokens queryText =
        ["{X:Type}".toList, "n:int".toList] ++ "query:!X".toList :: [] ∧
      "X" ∈ declaredBy ["{X:Type}".toList, "n:int".toList]) ∧
    argTokens hastyText = ["n:int".toList] ++ "query:!X".toList :: ["{X:Type}".toList] ∧
      "X" ∉ declaredBy ["n:int".toList] ∧
        read hastyText = .error (.invalidArg .undeclared) := by
  let arg : Arg := ⟨"query", .value (.plain ⟨⟨[], "X"⟩, false, true⟩) none⟩
  have harg : Arg.read "query:!X".toList = .ok arg := by decide +kernel
  have hvar : "X" ∈ arg.type.typeVars ∧ arg.type.headVar? = some "X" := by decide
  constructor
  · have hsome : ((read queryText).toOption.map (·.args.length)) = some 2 := by decide +kernel
    obtain ⟨d, hd, hlength⟩ := Option.map_eq_some_iff.1 hsome
    have hread := eq_ok_of_toOption hd
    have htokens : argTokens queryText =
        ["{X:Type}".toList, "n:int".toList] ++ "query:!X".toList :: [] := by decide +kernel
    exact ⟨d, hread, hlength, htokens, ((headVars_declared queryText).1 d hread).2 _ _ _ arg htokens
      harg "X" hvar.1 hvar.2⟩
  · have htokens : argTokens hastyText =
        ["n:int".toList] ++ "query:!X".toList :: ["{X:Type}".toList] := by decide +kernel
    have hundeclared : "X" ∉ declaredBy ["n:int".toList] := by decide +kernel
    exact ⟨htokens, hundeclared, (headVars_declared hastyText).2 _ _ _ arg htokens harg
      ⟨"X", hvar.1, hvar.2, hundeclared⟩ (by decide +kernel) (by decide +kernel)⟩

/-- A use within brackets, of a variable that nothing declares. -/
def nestedText : List Char :=
  "a#00000001 x:Vector<!X> = A;".toList

theorem nestedVariable_read : ∃ d, read nestedText = .ok d ∧
    (∃ arg ∈ d.args, "X" ∈ arg.type.typeVars) ∧ declaredBy (argTokens nestedText) = [] := by
  have hsome : ((read nestedText).toOption.any fun d =>
      d.args.any (fun arg => arg.type.typeVars.contains "X")) = true := by decide +kernel
  obtain ⟨d, hd, hany⟩ := (Option.any_eq_true _ _).1 hsome
  obtain ⟨arg, harg, hx⟩ := List.any_eq_true.1 hany
  exact ⟨d, eq_ok_of_toOption hd, ⟨arg, harg, List.contains_iff_mem.1 hx⟩, by decide +kernel⟩

end

end Combinator

end TypeLang.Declaration
