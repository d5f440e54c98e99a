import ConfigLang.Proofs.Document.SyntaxCheck
import ConfigLang.Proofs.Eval.Entries
import ConfigLang.Proofs.Eval.ShapeSafety
import ConfigLang.Proofs.Token.OpenKeys
import ConfigLang.Proofs.Token.Rendering

/-!
# Keys in quotes

A key in single quotes may have any characters in it: dots, spaces, line feeds, comments and quotes, which are
written with a backslash in front. Only the end of a key is special. A backslash in front of the closing quote
would make this a part of the key, and there is no way to write a backslash that does not.

* `quotedPath`, `pathDocument` - a path of keys in quotes, and a document with a single pair that has it.
* `Value.nested` - the object in which following some keys leads to a value.
* `Context.Reads` - all cursors with a context and a text read the same tokens.
* `reads_quotedPath`, `reads_pathDocument` - the tokens of a path and of its document.
* `getLast?_ne_of_tokens` - they are read only if no key ends in a backslash.
* `quoted_path_is_read_and_evaluated` - the result.
-/

namespace ConfigLang

/-! ### Paths -/

/-- The keys of a path in quotes, with a dot in front of each but the first. -/
def quotedPath : List String → List Char
  | [] => []
  | key :: keys => quotedSpelling key.toList ++ keys.flatMap fun k => '.' :: quotedSpelling k.toList

/-- The document with one pair, which has the path and the integer 1. -/
def pathDocument (keys : List String) : String :=
  "\x7b " ++ String.ofList (quotedPath keys) ++ " = 1 \x7d"

/-- The node of a path. -/
def pathNode (keys : List String) : Node := .branch .path (keys.map fun key => .leaf .pathSegment (.text key))

/-- The tree of the document. -/
def pathTree (keys : List String) : Node :=
  .branch .config [.branch .object [.branch .pair [pathNode keys, .leaf .integer (.integer 1)]]]

/-- The value below the keys, each in an object of its own that has just this key. -/
def Value.nested : List String → Value → Value
  | [], v => v
  | key :: keys, v => .object [(key, nested keys v)]

/-! ### Trees -/

theorem tokens_pathNode_cons (key : String) (keys : List String) : (pathNode (key :: keys)).tokens =
    .segment key :: keys.flatMap fun k => [.symbol .dot, .segment k] := by
  simp [pathNode, Node.tokens_branch, Node.branchTokens, Node.tokens_leaf, Node.leafTokens,
    Function.comp_def, List.flatMap_map]

theorem tokens_pathTree (keys : List String) : (pathTree keys).tokens = .symbol .braceOpen ::
    ((pathNode keys).tokens ++ [.symbol .equals, .integer 1, .symbol .braceClose]) := by
  simp [pathTree, Node.tokens_branch, Node.branchTokens, Node.tokens_leaf, Node.leafTokens]

variable {keys : List String}

theorem shaped_pathTree (hne : keys ≠ []) : Shaped .config (pathTree keys) := by
  have hpath : Shaped .path (pathNode keys) := by
    refine .path (mt List.map_eq_nil_iff.1 hne) fun s hs => ?_
    obtain ⟨key, -, rfl⟩ := List.mem_map.1 hs
    exact .segment key
  refine .config (.object fun e he => ?_)
  rw [List.mem_singleton.1 he]
  exact .pair hpath (.integer 1)

/-! ### Values -/

theorem pathKeys_pathNode (keys : List String) :
    (pathNode keys).pathKeys = (.ok keys : Except EvalError (List String)) := by
  induction keys with
  | nil => rfl
  | cons key keys ih =>
    show Node.pathKeys ⟨.path, none, _ :: _⟩ = _
    rw [Node.pathKeys_cons]
    show (Except.ok key >>= fun key => Node.pathKeys (pathNode keys) >>= fun keys => .ok (key :: keys)) = _
    rw [ih]
    rfl

/-- A write at a path into an empty object puts the keys below each other. -/
theorem exists_writeAt_nested (hne : keys ≠ []) (value : Value) :
    ∃ fields, writeAt [] keys value = .ok fields ∧ .object fields = Value.nested keys value := by
  induction keys with
  | nil => exact absurd rfl hne
  | cons key keys ih =>
    by_cases hkeys : keys = []
    · subst hkeys
      exact ⟨_, rfl, rfl⟩
    · obtain ⟨inner, hinner, hnested⟩ := ih hkeys
      have hbelow : objectAt? [] key = some [] := rfl
      refine ⟨[(key, .object inner)], ?_, ?_⟩
      · rw [writeAt_below hbelow hkeys, hinner]
        rfl
      · rw [Value.nested, hnested]

theorem evaluate_pathTree (hne : keys ≠ []) (env : Environment) :
    ∃ fields, (pathTree keys).evaluate env = .ok ⟨[], fields⟩ ∧
      .object fields = Value.nested keys (.integer 1) := by
  obtain ⟨fields, hwrite, hnested⟩ := exists_writeAt_nested hne (.integer 1)
  refine ⟨fields, ?_, hnested⟩
  have henter : (Scope.new env).enter (pathTree keys).children =
      (.new env, .ok (.branch .object [.branch .pair [pathNode keys, .leaf .integer (.integer 1)]])) := rfl
  have hentry : ∀ resolve : Resolver (Except EvalError), Node.evalEntry resolve []
      (.branch .pair [pathNode keys, .leaf .integer (.integer 1)]) = .ok fields := by
    intro resolve
    rw [Node.branch, Node.evalEntry_pair, pathKeys_pathNode]
    show (writeAt [] keys (.integer 1)).mapError _ = _
    rw [hwrite]
    rfl
  show ((Scope.new env).evalConfig _).1 = _
  rw [Scope.evalConfig_of_enter _ rfl henter, Node.evalFields_branch, Node.evalEntries, hentry]
  rfl

/-! ### Tokens -/

/-- All cursors with the context and the text read the tokens, up to the end of the document. -/
def Context.Reads (context : Context) (text : List Char) (tokens : List Token) : Prop :=
  ∀ c : Cursor, c.context = context → c.rest = text → c.run.tokens = tokens ∧ c.run.error = none

section Reads

variable {context : Context} {blank written text : List Char} {t : Token} {tokens : List Token}
  {transition : Transition} {c : Cursor}

/-- One space in front of a token. -/
theorem isSpace_of_mem_space : ∀ d ∈ [' '], Lexeme.isSpace d = true :=
  List.forall_mem_singleton.2 rfl

theorem Context.Reads.nil (context : Context) : context.Reads [] [] := by
  intro c _ hrest
  rw [Cursor.run_of_none (Cursor.next_eq_none (Cursor.skipGap_rest_of_nil hrest))]
  exact ⟨rfl, rfl⟩

/-- One token more in front, behind spaces. -/
theorem Context.Reads.cons (transition : Transition) (h : (context.apply transition).Reads text tokens)
    (hmode : context.current ≠ .string)
    (htransition : context.current.transition? t.kind = some transition) (hwritten : t.ReadFrom written)
    (htext : BeginsWithout t.goesOn text) (hblank : ∀ d ∈ blank, Lexeme.isSpace d = true) :
    context.Reads (blank ++ (written ++ text)) (t :: tokens) := by
  rintro c rfl hrest
  obtain ⟨d, hnext, hd, hbehind⟩ := Cursor.next_of_written htransition hwritten htext hblank
    (fun hstring => absurd hstring hmode) hrest
  obtain ⟨htokens, herror⟩ := h d hd hbehind
  rw [Cursor.run_of_some hnext]
  exact ⟨congrArg (t :: ·) htokens, herror⟩

/-- A key in quotes, behind spaces. -/
theorem Context.Reads.segment (h : context.Reads text tokens) (hmode : context.current = .object)
    {key : String} (hkey : key.toList.getLast? ≠ some '\\')
    (hblank : ∀ d ∈ blank, Lexeme.isSpace d = true) :
    context.Reads (blank ++ (quotedSpelling key.toList ++ text)) (.segment key :: tokens) :=
  .cons .stay h (by rw [hmode]; decide) (by rw [hmode]; rfl) (Token.readFrom_quotedSpelling hkey)
    (fun _ _ => rfl) hblank

/-- The keys of a path behind the first one, with the dots. -/
theorem Context.Reads.segments (h : context.Reads text tokens) (hmode : context.current = .object)
    (hkeys : ∀ key ∈ keys, key.toList.getLast? ≠ some '\\') :
    context.Reads (keys.flatMap (fun k => '.' :: quotedSpelling k.toList) ++ text)
      (keys.flatMap (fun k => [.symbol .dot, .segment k]) ++ tokens) := by
  induction keys with
  | nil => exact h
  | cons key keys ih =>
    obtain ⟨hkey, hkeys⟩ := List.forall_mem_cons.1 hkeys
    rw [List.flatMap_cons, List.append_assoc, List.flatMap_cons, List.append_assoc]
    have hdot : context.Reads ([] ++ (['.'] ++ _)) (.symbol .dot :: _) :=
      .cons .stay ((ih hkeys).segment hmode hkey (List.forall_mem_nil _)) (by rw [hmode]; decide)
        (by rw [hmode]; rfl) (Token.WrittenAs.symbol .dot).readFrom (beginsWithout_cons rfl)
        (List.forall_mem_nil _)
    exact hdot

theorem reads_quotedPath (h : context.Reads text tokens) (hmode : context.current = .object)
    (hne : keys ≠ []) (hkeys : ∀ key ∈ keys, key.toList.getLast? ≠ some '\\')
    (hblank : ∀ d ∈ blank, Lexeme.isSpace d = true) :
    context.Reads (blank ++ (quotedPath keys ++ text)) ((pathNode keys).tokens ++ tokens) := by
  obtain ⟨key, others, rfl⟩ := List.exists_cons_of_ne_nil hne
  obtain ⟨hkey, hothers⟩ := List.forall_mem_cons.1 hkeys
  rw [quotedPath, List.append_assoc, tokens_pathNode_cons]
  exact (h.segments hmode hothers).segment hmode hkey hblank

end Reads

/-- The text of the document, token by token. -/
theorem rest_start_pathDocument (keys : List String) : (Cursor.start (pathDocument keys)).rest =
    [] ++ (['\x7b'] ++ ([' '] ++ (quotedPath keys ++
      ([' '] ++ (['='] ++ ([' '] ++ (['1'] ++ ([' '] ++ (['\x7d'] ++ []))))))))) := by
  simp [Cursor.start, pathDocument]

theorem reads_pathDocument (hne : keys ≠ []) (hkeys : ∀ key ∈ keys, key.toList.getLast? ≠ some '\\') :
    Context.start.Reads (Cursor.start (pathDocument keys)).rest (pathTree keys).tokens := by
  have hwritten : (Token.integer 1).ReadFrom ['1'] := (Token.WrittenAs.integer 1).readFrom
  have hclose : Context.Reads ⟨.object, [.topLevel]⟩ ([' '] ++ (['\x7d'] ++ [])) [.symbol .braceClose] :=
    .cons .pop (.nil _) (by decide) rfl (Token.WrittenAs.symbol .braceClose).readFrom (fun _ _ => rfl)
      isSpace_of_mem_space
  have hone : Context.Reads ⟨.value, [.object, .topLevel]⟩ ([' '] ++ (['1'] ++ _))
      [.integer 1, .symbol .braceClose] :=
    .cons .pop hclose (by decide) rfl hwritten (beginsWithout_cons rfl) isSpace_of_mem_space
  have hequals : Context.Reads ⟨.object, [.topLevel]⟩ ([' '] ++ (['='] ++ _))
      [.symbol .equals, .integer 1, .symbol .braceClose] :=
    .cons (.push .value) hone (by decide) rfl (Token.WrittenAs.symbol .equals).readFrom (fun _ _ => rfl)
      isSpace_of_mem_space
  have hpath := reads_quotedPath hequals rfl hne hkeys isSpace_of_mem_space
  rw [rest_start_pathDocument, tokens_pathTree]
  exact .cons (.push .object) hpath (by decide) rfl (Token.WrittenAs.symbol .braceOpen).readFrom
    (fun _ _ => rfl) (List.forall_mem_nil _)

/-! ### What the tokens say of the keys -/

section Back

variable {c : Cursor} {blank written text : List Char} {t : Token} {tokens : List Token} {key : String}

/-- Behind a written token the other tokens follow. -/
theorem Cursor.exists_behind (transition : Transition) (hrun : c.run.tokens = t :: tokens)
    (hmode : c.mode ≠ .string) (htransition : c.mode.transition? t.kind = some transition)
    (hwritten : t.ReadFrom written) (htext : BeginsWithout t.goesOn text)
    (hblank : ∀ d ∈ blank, Lexeme.isSpace d = true) (hrest : c.rest = blank ++ (written ++ text)) :
    ∃ d : Cursor, d.run.tokens = tokens ∧ d.context = c.context.apply transition ∧ d.rest = text := by
  obtain ⟨d, hnext, hd, hbehind⟩ := next_of_written htransition hwritten htext hblank
    (fun hstring => absurd hstring hmode) hrest
  rw [run_of_some hnext] at hrun
  exact ⟨d, (List.cons.inj hrun).2, hd, hbehind⟩

/-- A key that is read from its quotes does not end in a backslash, and the other tokens follow behind the
quotes. -/
theorem Cursor.exists_behind_segment (hrun : c.run.tokens = .segment key :: tokens) (hmode : c.mode = .object)
    (hblank : ∀ d ∈ blank, Lexeme.isSpace d = true)
    (hrest : c.rest = blank ++ (quotedSpelling key.toList ++ text)) :
    key.toList.getLast? ≠ some '\\' ∧
      ∃ d : Cursor, d.run.tokens = tokens ∧ d.context = c.context ∧ d.rest = text := by
  have hstring : c.mode ≠ .string := by
    rw [hmode]
    decide
  have hkey : key.toList.getLast? ≠ some '\\' := by
    intro hslash
    have hgap : gap false (quotedSpelling key.toList ++ text) = [] := rfl
    obtain ⟨d, hnext, -⟩ := exists_next_of_tokens_cons hrun
    obtain ⟨l, transition, hread, htoken, -⟩ := read_of_next_eq_some hnext
    rw [skipGap_rest_of_blank hstring hblank hgap hrest] at hread
    refine Mode.not_segment_of_backslash hread hstring hslash ?_
    rw [htoken, String.ofList_toList]
  have htransition : c.mode.transition? (Token.segment key).kind = some .stay := by
    rw [hmode]
    rfl
  exact ⟨hkey, exists_behind .stay hrun hstring htransition (Token.readFrom_quotedSpelling hkey)
    (fun _ _ => rfl) hblank hrest⟩

theorem getLast?_ne_of_segments (hmode : c.mode = .object)
    (hrest : c.rest = keys.flatMap (fun k => '.' :: quotedSpelling k.toList) ++ text)
    (hrun : c.run.tokens = keys.flatMap (fun k => [.symbol .dot, .segment k]) ++ tokens) :
    ∀ key ∈ keys, key.toList.getLast? ≠ some '\\' := by
  induction keys generalizing c with
  | nil => exact fun key hkey => absurd hkey List.not_mem_nil
  | cons key keys ih =>
    rw [List.flatMap_cons, List.append_assoc] at hrest hrun
    have hdot : c.rest = [] ++ (['.'] ++ ([] ++ (quotedSpelling key.toList ++ _))) := hrest
    obtain ⟨d, hd, hcontext, hbehind⟩ := Cursor.exists_behind .stay hrun (by rw [hmode]; decide)
      (by rw [hmode]; rfl) (Token.WrittenAs.symbol .dot).readFrom
      (beginsWithout_cons rfl) (List.forall_mem_nil _) hdot
    have hsame : d.mode = .object := (congrArg Context.current hcontext).trans hmode
    obtain ⟨hkey, e, he, hcontext, hbehind⟩ :=
      Cursor.exists_behind_segment hd hsame (List.forall_mem_nil _) hbehind
    have hkeys := ih ((congrArg Context.current hcontext).trans hsame) hbehind he
    exact List.forall_mem_cons.2 ⟨hkey, hkeys⟩

/-- The document is cut into the tokens of the path only if no key ends in a backslash. -/
theorem getLast?_ne_of_tokens (h : tokensOf (pathDocument keys) = .ok (pathTree keys).tokens) :
    ∀ key ∈ keys, key.toList.getLast? ≠ some '\\' := by
  cases keys with
  | nil => exact fun key hkey => absurd hkey List.not_mem_nil
  | cons key keys =>
    obtain ⟨hrun, -⟩ := run_of_tokensOf h
    rw [tokens_pathTree, tokens_pathNode_cons] at hrun
    have hbrace : (Token.symbol .braceOpen).ReadFrom ['\x7b'] := (Token.WrittenAs.symbol .braceOpen).readFrom
    obtain ⟨d, hd, hcontext, hbehind⟩ := Cursor.exists_behind (.push .object) hrun nofun rfl hbrace
      (fun _ _ => rfl) (List.forall_mem_nil _) (rest_start_pathDocument (key :: keys))
    rw [quotedPath, List.append_assoc] at hbehind
    have hmode : d.mode = .object := congrArg Context.current hcontext
    obtain ⟨hkey, e, he, hcontext, hbehind⟩ :=
      Cursor.exists_behind_segment hd hmode isSpace_of_mem_space hbehind
    have hkeys := getLast?_ne_of_segments ((congrArg Context.current hcontext).trans hmode) hbehind he
    exact List.forall_mem_cons.2 ⟨hkey, hkeys⟩

end Back

/-! ### Documents -/

theorem evaluate_of_pathTree (hne : keys ≠ []) (env : Environment) {source : String}
    (htokens : tokensOf source = .ok (pathTree keys).tokens) :
    (evaluate env source).map (·.value) = .ok (Value.nested keys (.integer 1)) := by
  have htree := Grammar.treeOf_tokens_of_shaped (shaped_pathTree hne)
  obtain ⟨fields, heval, hnested⟩ := evaluate_pathTree hne env
  rw [evaluate_of_tree env htokens htree, heval, ← hnested]
  rfl

/-- A path of keys in quotes is cut into its keys if and only if none of them ends in a backslash. Then the
document evaluates to the object in which following the keys leads to the integer 1, each of them the only key
of its object. -/
theorem quoted_path_is_read_and_evaluated (hne : keys ≠ []) (env : Environment) :
    (tokensOf (pathDocument keys) = .ok (pathTree keys).tokens ↔
      ∀ key ∈ keys, key.toList.getLast? ≠ some '\\') ∧
    ((∀ key ∈ keys, key.toList.getLast? ≠ some '\\') →
      (evaluate env (pathDocument keys)).map (·.value) = .ok (Value.nested keys (.integer 1))) := by
  have htokens : (∀ key ∈ keys, key.toList.getLast? ≠ some '\\') →
      tokensOf (pathDocument keys) = .ok (pathTree keys).tokens := by
    intro hkeys
    obtain ⟨htokens, herror⟩ := reads_pathDocument hne hkeys (Cursor.start (pathDocument keys)) rfl rfl
    exact tokensOf_of_run htokens herror
  exact ⟨⟨getLast?_ne_of_tokens, htokens⟩, fun hkeys => evaluate_of_pathTree hne env (htokens hkeys)⟩

/-- Keys with quotes and backslashes next to each other, with what else would end a key, with a comment and a
line feed, and with nothing at all. -/
theorem quoted_path_of_odd_keys :
    let keys := ["it's", "a.b = c", "", "\\'\\\\x", "// \x7b\n"]
    let source := "\x7b 'it\\'s'.'a.b = c'.''.'\\\\'\\\\x'.'// \x7b\n' = 1 \x7d"
    keys ≠ [] ∧ (∀ key ∈ keys, key.toList.getLast? ≠ some '\\') ∧ pathDocument keys = source ∧
      (evaluate .empty source).map (·.value) = .ok (.object [("it's", .object [("a.b = c", .object
        [("", .object [("\\'\\\\x", .object [("// \x7b\n", .integer 1)])])])])]) := by
  intro keys source
  have hne : keys ≠ [] := List.cons_ne_nil _ _
  have hkeys : ∀ key ∈ keys, key.toList.getLast? ≠ some '\\' := by
    decide +kernel
  have hsource : pathDocument keys = source := by
    decide +kernel
  refine ⟨hne, hkeys, hsource, ?_⟩
  rw [← hsource]
  exact (quoted_path_is_read_and_evaluated hne .empty).2 hkeys

/-- The backslash takes the closing quote for a part of the key. No other quote closes it, so the key is read
without quotes, as the three characters that were to spell it. -/
theorem quoted_backslash_is_another_key :
    pathDocument ["\\"] = "\x7b '\\' = 1 \x7d" ∧
      (evaluate .empty "\x7b '\\' = 1 \x7d").map (·.value) = .ok (.object [("'\\'", .integer 1)]) ∧
      (evaluate .empty "\x7b '\\' = 1 \x7d").map (·.value) ≠ .ok (Value.nested ["\\"] (.integer 1)) := by
  have htokens : tokensOf "\x7b '\\' = 1 \x7d" = .ok (pathTree ["'\\'"]).tokens := by
    decide +kernel
  have hvalue := evaluate_of_pathTree (List.cons_ne_nil _ _) .empty htokens
  refine ⟨by decide +kernel, hvalue, fun h => ?_⟩
  rw [hvalue] at h
  simp [Value.nested] at h

end ConfigLang
