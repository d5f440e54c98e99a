import ConfigLang.Proofs.Eval.References

/-!
# A text from the environment is a binding

The environment gives the input of a variable its text before the bound names are looked at, and without
putting the name on the chain. That is the same as binding the input to a string whose text is kept as it is:
every character of it is an escape, so it does not lose its indentation.

* `Node.escapes` - the string whose characters are escapes.
* `Scope.rebind` - a scope with a variable moved from the environment to the bound names.
* `override_is_rebinding` - the result.
-/

namespace ConfigLang

/-! ### Strings of escapes -/

namespace Node

/-- The string of a text, with an escape for each character. -/
def escapes (text : String) : Node :=
  branch .string (text.toList.map fun c => leaf .charEscape (.char c))

variable {resolve : Resolver (Except EvalError)}

theorem mapM_piece_escapes (chars : List Char) :
    (chars.map fun c => leaf .charEscape (.char c)).mapM (piece resolve) =
      .ok (chars.map fun c => ⟨String.singleton c, true⟩) := by
  induction chars with
  | nil => rfl
  | cons c rest ih =>
    rw [List.map_cons, List.mapM_cons, ih]
    rfl

/-- A string of escapes keeps its text, however many lines it has. -/
theorem eval_escapes (text : String) : (escapes text).eval resolve = .ok (.string text) := by
  have hjoin : Piece.join (text.toList.map fun c => ⟨String.singleton c, true⟩) = text := by
    refine Piece.join_eq ?_ fun hmem => ?_
    · simp [List.flatMap_map]
    · rw [List.any_map, List.any_eq_true]
      exact ⟨_, hmem, rfl⟩
  rw [escapes, branch, eval, mapM_piece_escapes]
  show Except.ok (Value.string (Piece.join _)) = _
  rw [hjoin]

end Node

/-! ### Scopes -/

/-- The environment in which a variable is not set. -/
def Environment.unset (env : Environment) (var : String) : Environment :=
  fun name => if name = var then none else env name

namespace Scope

/-- The scope in which a variable is not set, and its input is bound to a text. -/
def rebind (s : Scope) (var text : String) : Scope :=
  ⟨s.env.unset var, s.inputs.insert ("$env_" ++ var) (.escapes text)⟩

variable {s : Scope} {var text : String}

theorem resolve_rebind_self (hvar : var ≠ "") (chain : List String) (hchain : "$env_" ++ var ∉ chain) :
    (s.rebind var text).resolve chain ("$env_" ++ var) = .ok (.string text) := by
  have hover : (s.rebind var text).env.override ("$env_" ++ var) = none := by
    rw [Environment.override_append hvar]
    show ((if var = var then none else s.env var) : Option String).filter _ = none
    rw [if_pos rfl]
    rfl
  have hbound : (s.rebind var text).inputs.get? ("$env_" ++ var) = some (.escapes text) := by
    show (s.inputs.insert ("$env_" ++ var) (.escapes text)).get? ("$env_" ++ var) = _
    rw [OrderedMap.get?_insert, if_pos rfl]
  rw [resolve_of_bound hover hbound, if_neg hchain, Node.eval_escapes]

theorem override_rebind_of_ne {name : String} (hname : name ≠ "$env_" ++ var) :
    (s.rebind var text).env.override name = s.env.override name := by
  rcases Environment.override_eq_none_or name with hnone | ⟨other, hother, rfl⟩
  · rw [hnone, hnone]
  · have hne : other ≠ var := by
      rintro rfl
      exact hname rfl
    have hset : (s.rebind var text).env other = s.env other := if_neg hne
    rw [Environment.override_append hother, Environment.override_append hother, hset]

/-- A name comes to the same in both scopes, as long as the input of the variable is not on the chain. It never
gets there: before the change it is not resolved through its binding, and after it nothing is resolved for it. -/
theorem resolve_rebind (hvar : var ≠ "") (htext : text ≠ "") (hset : s.env var = some text)
    (chain : List String) (hchain : "$env_" ++ var ∉ chain) (name : String) :
    s.resolve chain name = (s.rebind var text).resolve chain name := by
  by_cases hname : name = "$env_" ++ var
  · subst hname
    have hover : s.env.override ("$env_" ++ var) = some text := by
      rw [Environment.override_append hvar, hset]
      simp [htext]
    rw [resolve_of_override hover, resolve_rebind_self hvar chain hchain]
  · have hbinding : (s.rebind var text).inputs.get? name = s.inputs.get? name := by
      show (s.inputs.insert ("$env_" ++ var) (.escapes text)).get? name = _
      rw [OrderedMap.get?_insert, if_neg (Ne.symm hname)]
    refine resolve_congr (override_rebind_of_ne hname).symm (fun _ => hbinding.symm) ?_
    intro inner _ hlt
    exact resolve_rebind hvar htext hset (chain ++ [name]) (by simp [hchain, Ne.symm hname]) inner
termination_by (s.unresolved chain).length

end Scope

/-- A variable that is set to a text can as well be unset, with its input bound to the string of escapes for
the text: every tree comes to the same, and so does every name. -/
theorem override_is_rebinding (s : Scope) {var text : String} (hvar : var ≠ "") (htext : text ≠ "")
    (hset : s.env var = some text) :
    (∀ n : Node, n.eval (s.resolve []) = n.eval ((s.rebind var text).resolve [])) ∧
    (∀ n : Node, n.evalFields (s.resolve []) = n.evalFields ((s.rebind var text).resolve [])) ∧
    (∀ name, s.resolve [] name = (s.rebind var text).resolve [] name) ∧
    ∀ resolve : Resolver (Except EvalError), (Node.escapes text).eval resolve = .ok (.string text) := by
  have hresolve : s.resolve [] = (s.rebind var text).resolve [] :=
    funext fun name => Scope.resolve_rebind hvar htext hset [] List.not_mem_nil name
  rw [← hresolve]
  exact ⟨fun n => rfl, fun n => rfl, fun name => rfl, fun resolve => Node.eval_escapes text⟩

/-- An input that needs itself is cut off by its variable, and the lines of the text keep their blanks. -/
theorem override_of_two_lines_is_rebinding :
    let s := Scope.mk (.ofList [("MOTD", "a\n  b")])
      [("$env_MOTD", .branch .array [.leaf .input (.text "$env_MOTD")])]
    s.env "MOTD" = some "a\n  b" ∧
      (s.rebind "MOTD" "a\n  b").resolve [] "$env_MOTD" = .ok (.string "a\n  b") := by
  intro s
  have hset : s.env "MOTD" = some "a\n  b" := by
    decide
  obtain ⟨-, -, hresolve, -⟩ := override_is_rebinding s (by decide) (by decide) hset
  refine ⟨hset, (hresolve "$env_MOTD").symm.trans ?_⟩
  exact Scope.resolve_of_override (by decide)

end ConfigLang
