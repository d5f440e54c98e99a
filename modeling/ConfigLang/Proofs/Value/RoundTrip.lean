import ConfigLang.Document
import ConfigLang.Proofs.Eval.ShapeSafety
import ConfigLang.Proofs.Token.Rendering
import ConfigLang.Proofs.Value.Tree

/-!
# Written values are read back

The text of an object is a document, and the document evaluates to the object.

* `Token.written` - the text of a token.
* `Rendered` - tokens that are read from their text, next to each other as they stand there.
* `Value.Writable.rendered` - the text of a value is that of the tokens of its tree.
* `evaluate_write` - the result.
-/

namespace ConfigLang

/-! ### Tokens -/

namespace Token

/-- The text of a token, given the texts of floats. -/
def written (floatText : Float → List Char) : Token → List Char
  | symbol s => s.spelling
  | segment key => quotedSpelling key.toList
  | float value => floatText value
  | integer value => (Decimal.writeInt value.toInt).toList
  | escape c => escapeText c
  | characters text => text.toList
  | input name => name.toList

variable {floatText : Float → List Char}

theorem readFrom_symbol (s : Symbol) : (symbol s).ReadFrom ((symbol s).written floatText) :=
  (WrittenAs.symbol s).readFrom

theorem readFrom_segment {key : String} (h : key.toList.getLast? ≠ some '\\') :
    (segment key).ReadFrom ((segment key).written floatText) :=
  readFrom_quotedSpelling h

theorem readFrom_characters {run : List Char} (hne : run ≠ [])
    (hrun : ∀ c ∈ run, isVerbatim c = true) :
    (characters (String.ofList run)).ReadFrom
      ((characters (String.ofList run)).written floatText) := by
  have hwritten : (characters (String.ofList run)).WrittenAs run := by
    refine .characters hne fun c hc => ?_
    have hverbatim := hrun c hc
    simp only [isVerbatim, Bool.and_eq_true, bne_iff_ne] at hverbatim
    exact ⟨hverbatim.1.1.2, hverbatim.1.2, hverbatim.2⟩
  rw [written, String.toList_ofList]
  exact hwritten.readFrom

/-- The characters that are not written as they are, with the letters for them. -/
theorem cases_of_not_isVerbatim {c : Char} (h : isVerbatim c = false) :
    c = '\n' ∨ c = '"' ∨ c = '\\' ∨ c = '$' := by
  simp only [isVerbatim, Bool.and_eq_false_iff, bne_eq_false_iff_eq] at h
  tauto

theorem readFrom_escape {c : Char} (h : isVerbatim c = false) :
    (escape c).ReadFrom ((escape c).written floatText) where
  exists_cons_begins := by
    rcases cases_of_not_isVerbatim h with rfl | rfl | rfl | rfl
    all_goals exact ⟨_, _, rfl, rfl⟩
  read_append := by
    intro text _
    rcases cases_of_not_isVerbatim h with rfl | rfl | rfl | rfl
    all_goals rfl
  rival_read_append := by
    intro _ _ _ hr
    exact absurd hr List.not_mem_nil

theorem separable_escape (t : Token) (c : Char) : t.Separable (.escape c) := by
  cases t <;> trivial

theorem separable_symbol (t : Token) (s : Symbol) : t.Separable (.symbol s) := by
  cases t <;> trivial

end Token

/-! ### Lists of tokens -/

section Lists

variable (floatText : Float → List Char)

/-- The lexemes of tokens. -/
def lexemesOf (tokens : List Token) : List Lexeme :=
  tokens.map fun t => ⟨t, t.written floatText⟩

/-- The tokens are read from the text, which has a space in front of each of them but not inside strings.
Anything may follow the last one. -/
structure Rendered (tokens : List Token) (text : List Char) : Prop where
  renderRest_append : ∀ more, renderRest false (lexemesOf floatText tokens ++ more) =
    text ++ renderRest false more
  readFrom : ∀ t ∈ tokens, t.ReadFrom (t.written floatText)
  separable : tokens.IsChain Token.Separable
  closed : ∀ t ∈ tokens.getLast?, ∀ u, t.Separable u

variable {floatText} {tokens tokens' : List Token} {text text' : List Char}

namespace Rendered

theorem nil : Rendered floatText [] [] where
  renderRest_append _ := rfl
  readFrom _ h := absurd h List.not_mem_nil
  separable := .nil
  closed _ h := by cases h

theorem append (h : Rendered floatText tokens text) (h' : Rendered floatText tokens' text') :
    Rendered floatText (tokens ++ tokens') (text ++ text') where
  renderRest_append more := by
    rw [lexemesOf, List.map_append, List.append_assoc, List.append_assoc]
    exact (h.renderRest_append _).trans (congrArg (text ++ ·) (h'.renderRest_append more))
  readFrom t ht := (List.mem_append.1 ht).elim (h.readFrom t) (h'.readFrom t)
  separable := List.isChain_append.2
    ⟨h.separable, h'.separable, fun t ht u _ => h.closed t ht u⟩
  closed t ht := by
    rw [List.getLast?_append] at ht
    cases hlast : tokens'.getLast? with
    | none =>
      rw [hlast, Option.none_or] at ht
      exact h.closed t ht
    | some u =>
      rw [hlast, Option.some_or] at ht
      exact h'.closed t (hlast ▸ ht)

theorem flatMap {α : Type} {items : List α} {f : α → List Token} {g : α → List Char}
    (h : ∀ a ∈ items, Rendered floatText (f a) (g a)) :
    Rendered floatText (items.flatMap f) (items.flatMap g) := by
  induction items with
  | nil => exact nil
  | cons a items ih =>
    rw [List.flatMap_cons, List.flatMap_cons]
    exact (h a List.mem_cons_self).append (ih fun b hb => h b (List.mem_cons_of_mem a hb))

theorem single {t : Token} (hread : t.ReadFrom (t.written floatText)) (hquote : t.isQuote = false)
    (hclosed : ∀ u, t.Separable u) :
    Rendered floatText [t] (' ' :: t.written floatText) where
  renderRest_append more := by
    show renderRest false (⟨t, t.written floatText⟩ :: more) = _
    rw [renderRest, hquote]
    rfl
  readFrom u hu := by rwa [List.mem_singleton.1 hu]
  separable := .singleton t
  closed u hu := by
    obtain rfl := Option.some.inj hu
    exact hclosed

theorem symbol (s : Symbol) (hquote : (Token.symbol s).isQuote = false) :
    Rendered floatText [.symbol s] (' ' :: s.spelling) :=
  single (Token.readFrom_symbol s) hquote fun _ => trivial

end Rendered

/-! ### Strings -/

theorem tokens_of_runParts (run : List Char) :
    (runParts run).flatMap Node.tokens =
      if run = [] then [] else [.characters (String.ofList run)] := by
  rw [runParts]
  split
  · rfl
  · rw [List.flatMap_singleton, Node.tokens_leaf, Node.leafTokens]

theorem tokens_of_partsFrom_escape {run rest : List Char} {c : Char} (hc : isVerbatim c = false) :
    (partsFrom run (c :: rest)).flatMap Node.tokens =
      (runParts run).flatMap Node.tokens ++ .escape c :: (partsFrom [] rest).flatMap Node.tokens := by
  rw [partsFrom, hc, if_neg Bool.false_ne_true, List.flatMap_append, List.flatMap_cons, Node.tokens_leaf,
    Node.leafTokens, List.singleton_append]

/-- Between the quotes the parts stand without spaces. -/
theorem renderRest_runParts (run : List Char) (more : List Lexeme) :
    renderRest true (lexemesOf floatText ((runParts run).flatMap Node.tokens) ++ more) =
      run ++ renderRest true more := by
  rw [tokens_of_runParts]
  split
  next hrun =>
    rw [hrun]
    rfl
  next =>
    show renderRest true (⟨.characters (String.ofList run), (String.ofList run).toList⟩ :: more) = _
    rw [renderRest, String.toList_ofList]
    rfl

theorem renderRest_partsFrom (run text : List Char) (more : List Lexeme) :
    renderRest true (lexemesOf floatText ((partsFrom run text).flatMap Node.tokens) ++ more) =
      run ++ text.flatMap escapeText ++ renderRest true more := by
  induction text generalizing run with
  | nil => rw [partsFrom, renderRest_runParts, List.flatMap_nil, List.append_nil]
  | cons c rest ih =>
    cases hc : isVerbatim c with
    | true =>
      rw [partsFrom, if_pos hc, ih, List.flatMap_cons, escapeText, if_pos hc, List.append_assoc run,
        List.append_assoc run]
    | false =>
      rw [tokens_of_partsFrom_escape hc, lexemesOf, List.map_append, List.append_assoc]
      refine (renderRest_runParts run _).trans ?_
      rw [List.map_cons, List.cons_append, renderRest]
      show run ++ (escapeText c ++ renderRest true (lexemesOf floatText _ ++ more)) = _
      rw [ih, List.flatMap_cons]
      simp

theorem readFrom_of_mem_runParts {run : List Char} (hrun : ∀ c ∈ run, isVerbatim c = true) :
    ∀ t ∈ (runParts run).flatMap Node.tokens, t.ReadFrom (t.written floatText) := by
  intro t ht
  rw [tokens_of_runParts] at ht
  split at ht
  · cases ht
  next hne =>
    rw [List.mem_singleton.1 ht]
    exact Token.readFrom_characters hne hrun

theorem readFrom_of_mem_partsFrom {run text : List Char} (hrun : ∀ c ∈ run, isVerbatim c = true) :
    ∀ t ∈ (partsFrom run text).flatMap Node.tokens, t.ReadFrom (t.written floatText) := by
  induction text generalizing run with
  | nil => exact readFrom_of_mem_runParts hrun
  | cons c rest ih =>
    cases hc : isVerbatim c with
    | true =>
      rw [partsFrom, if_pos hc]
      refine ih fun d hd => ?_
      rcases List.mem_append.1 hd with hd | hd
      · exact hrun d hd
      · rw [List.mem_singleton.1 hd]
        exact hc
    | false =>
      rw [tokens_of_partsFrom_escape hc]
      intro t ht
      rcases List.mem_append.1 ht with ht | ht
      · exact readFrom_of_mem_runParts hrun t ht
      · rcases List.mem_cons.1 ht with rfl | ht
        · exact Token.readFrom_escape hc
        · exact ih (fun d hd => absurd hd List.not_mem_nil) t ht

/-- Between two runs of characters there is an escape. -/
theorem separable_partsFrom (run text : List Char) :
    ((partsFrom run text).flatMap Node.tokens).IsChain Token.Separable := by
  have hrun : ∀ run : List Char, ((runParts run).flatMap Node.tokens).IsChain Token.Separable := by
    intro run
    rw [tokens_of_runParts]
    split
    · exact .nil
    · exact .singleton _
  induction text generalizing run with
  | nil => exact hrun run
  | cons c rest ih =>
    cases hc : isVerbatim c with
    | true =>
      rw [partsFrom, if_pos hc]
      exact ih (run ++ [c])
    | false =>
      rw [tokens_of_partsFrom_escape hc]
      refine List.isChain_append.2
        ⟨hrun run, List.isChain_cons.2 ⟨fun u _ => trivial, ih []⟩, fun t _ u hu => ?_⟩
      obtain rfl := Option.some.inj hu
      exact t.separable_escape c

theorem rendered_string (text : List Char) :
    Rendered floatText (.symbol .doubleQuote :: (partsFrom [] text).flatMap Node.tokens ++
      [.symbol .doubleQuote]) (' ' :: stringSpelling text) where
  renderRest_append more := by
    have hquote : ∀ (inString : Bool) (rest : List Lexeme),
        renderRest inString (⟨.symbol .doubleQuote, ['"']⟩ :: rest) =
          (if inString then [] else [' ']) ++ '"' :: renderRest (!inString) rest := by
      intro inString rest
      rw [renderRest]
      cases inString <;> rfl
    rw [lexemesOf, List.map_append, List.map_cons, List.append_assoc, List.cons_append]
    refine (hquote false _).trans ?_
    show ' ' :: '"' :: renderRest true (lexemesOf floatText _ ++ ⟨.symbol .doubleQuote, ['"']⟩ :: more) = _
    rw [renderRest_partsFrom, hquote, stringSpelling]
    simp
  readFrom t ht := by
    rcases List.mem_append.1 ht with ht | ht
    · rcases List.mem_cons.1 ht with rfl | ht
      · exact Token.readFrom_symbol .doubleQuote
      · exact readFrom_of_mem_partsFrom (fun c hc => absurd hc List.not_mem_nil) t ht
    · rw [List.mem_singleton.1 ht]
      exact Token.readFrom_symbol .doubleQuote
  separable := by
    refine List.isChain_append.2 ⟨List.isChain_cons.2 ⟨fun u _ => trivial, separable_partsFrom [] text⟩,
      .singleton _, fun t _ u hu => ?_⟩
    obtain rfl := Option.some.inj hu
    exact t.separable_symbol .doubleQuote
  closed t ht := by
    rw [List.getLast?_concat] at ht
    obtain rfl := Option.some.inj ht
    exact fun u => trivial

/-! ### Values -/

namespace Value

theorem rendered_fieldNode {key : String} {value : Node} (hkey : key.toList.getLast? ≠ some '\\')
    (hvalue : Rendered floatText value.tokens (' ' :: text)) :
    Rendered floatText (fieldNode key value).tokens
      (' ' :: quotedSpelling key.toList ++ [' ', '=', ' '] ++ text) := by
  have hsegment : Rendered floatText [.segment key] (' ' :: quotedSpelling key.toList) :=
    .single (Token.readFrom_segment hkey) rfl fun _ => trivial
  have htokens : (fieldNode key value).tokens = [.segment key] ++ ([.symbol .equals] ++ value.tokens) := by
    simp [fieldNode, Node.tokens_branch, Node.branchTokens, Node.tokens_leaf, Node.leafTokens]
  have htext : ' ' :: quotedSpelling key.toList ++ [' ', '=', ' '] ++ text =
      ' ' :: quotedSpelling key.toList ++ ([' ', '='] ++ ' ' :: text) := by
    simp
  rw [htokens, htext]
  exact hsegment.append ((Rendered.symbol .equals rfl).append hvalue)

/-- The tokens of the tree of a value are read from the text of the value. -/
theorem Writable.rendered {v : Value} (h : v.Writable floatText) :
    Rendered floatText v.node.tokens (' ' :: v.write floatText) := by
  induction h with
  | null => exact Rendered.symbol .nullWord rfl
  | boolean value =>
    cases value with
    | true => exact Rendered.symbol .trueWord rfl
    | false => exact Rendered.symbol .falseWord rfl
  | integer value =>
    exact Rendered.single (Token.WrittenAs.integer value).readFrom rfl fun _ => trivial
  | float htext hvalue =>
    exact Rendered.single (Token.WrittenAs.float htext hvalue).readFrom rfl fun _ => trivial
  | string text =>
    rw [node, Node.tokens_branch, Node.branchTokens, ← List.flatMap_def]
    exact rendered_string text.toList
  | @array items _ ih =>
    have hitems : Rendered floatText (items.flatMap fun i => i.node.tokens)
        (writeItems floatText items) := by
      rw [writeItems_eq_flatMap]
      exact .flatMap ih
    have htokens : (Value.array items).node.tokens =
        [.symbol .bracketOpen] ++ ((items.flatMap fun i => i.node.tokens) ++ [.symbol .bracketClose]) := by
      rw [node, Node.tokens_branch, Node.branchTokens, itemNodes_eq_map, ← List.flatMap_def,
        List.flatMap_map]
      rfl
    rw [htokens, write]
    exact (Rendered.symbol .bracketOpen rfl).append (hitems.append (.symbol .bracketClose rfl))
  | @object fields _ hkeys _ ih =>
    have hfields : Rendered floatText (fields.flatMap fun f => (fieldNode f.1 f.2.node).tokens)
        (writeFields floatText fields) := by
      rw [writeFields_eq_flatMap]
      exact .flatMap fun f hf => rendered_fieldNode (hkeys f.1 (List.mem_map_of_mem hf)) (ih f hf)
    have htokens : (Value.object fields).node.tokens = [.symbol .braceOpen] ++
        ((fields.flatMap fun f => (fieldNode f.1 f.2.node).tokens) ++ [.symbol .braceClose]) := by
      rw [node, Node.tokens_branch, Node.branchTokens, fieldNodes_eq_map, ← List.flatMap_def,
        List.flatMap_map]
      rfl
    rw [htokens, write]
    exact (Rendered.symbol .braceOpen rfl).append (hfields.append (.symbol .braceClose rfl))

end Value

end Lists

/-! ### Documents -/

variable {floatText : Float → List Char} {fields : OrderedMap Value}

/-- The first token of a document has no space in front. -/
theorem renderRest_false {lexemes : List Lexeme} (h : lexemes ≠ []) :
    renderRest false lexemes = ' ' :: render lexemes := by
  obtain ⟨l, rest, rfl⟩ := List.exists_cons_of_ne_nil h
  rw [renderRest, render, Bool.false_bne]
  rfl

/-- Tokens that have a tree are read from the text without the space in front. -/
theorem Rendered.tokensOf {tokens : List Token} {text : List Char} {tree : Node}
    (h : Rendered floatText tokens (' ' :: text)) (htree : treeOf tokens = .ok tree) :
    ConfigLang.tokensOf (String.ofList text) = .ok tokens := by
  have htokens : (lexemesOf floatText tokens).map (·.token) = tokens := by
    rw [lexemesOf, List.map_map]
    exact List.map_id _
  have hne : lexemesOf floatText tokens ≠ [] := by
    intro hnil
    rw [hnil] at htokens
    rw [← htokens] at htree
    cases htree
  have htext : render (lexemesOf floatText tokens) = text := by
    have hrest := h.renderRest_append []
    rw [List.append_nil, renderRest_false hne, renderRest, List.append_nil] at hrest
    exact (List.cons.inj hrest).2
  have hlead : Grammar.Place.start.Leads ((lexemesOf floatText tokens).map (·.token)) (.done tree) := by
    rw [htokens]
    exact Grammar.treeOf_eq_ok_iff.1 htree
  have hread : ∀ l ∈ lexemesOf floatText tokens, l.token.ReadFrom l.spelling := by
    intro l hl
    obtain ⟨t, ht, rfl⟩ := List.mem_map.1 hl
    exact h.readFrom t ht
  have hrun := tokensOf_render_of_readFrom hlead hread (by rw [htokens]; exact h.separable)
  rwa [htext, htokens] at hrun

theorem Value.exists_tokens_node_object (fields : OrderedMap Value) :
    ∃ inner, (Value.object fields).node.tokens =
      .symbol .braceOpen :: (inner ++ [.symbol .braceClose]) := by
  rw [Value.node, Node.tokens_branch]
  exact ⟨_, rfl⟩

/-- The tokens of an object are those of a document with the object as its root. -/
theorem Value.Writable.treeOf_tokens_node (h : (Value.object fields).Writable floatText) :
    treeOf (Value.object fields).node.tokens = .ok (.branch .config [(Value.object fields).node]) := by
  have hobject : Shaped .object (Value.object fields).node := by
    have hshaped := h.shaped_node
    rw [Value.node] at hshaped ⊢
    cases hshaped with
    | objectValue hobject => exact hobject
  have htokens : (Node.branch .config [(Value.object fields).node]).tokens =
      (Value.object fields).node.tokens := by
    rw [Node.tokens_branch]
    exact List.append_nil _
  rw [← htokens]
  exact Grammar.treeOf_tokens_of_shaped (.config hobject)

/-- The text of an object that can be written is a document, and this evaluates to the object: no name is
bound, and the fields are the same in the same order. -/
theorem evaluate_write (env : Environment) (h : (Value.object fields).Writable floatText) :
    evaluate env (String.ofList ((Value.object fields).write floatText)) = .ok ⟨[], fields⟩ := by
  have htree := h.treeOf_tokens_node
  have htokens := h.rendered.tokensOf htree
  have hends : checkEnds (Value.object fields).node.tokens = .ok () := by
    obtain ⟨inner, hinner⟩ := Value.exists_tokens_node_object fields
    rw [hinner]
    exact checkEnds_of_ends (Or.inr rfl) inner
  have hvalue : (Node.branch .config [(Value.object fields).node]).evaluate env = .ok ⟨[], fields⟩ := by
    have henter : (Scope.new env).enter [(Value.object fields).node] =
        (.new env, .ok (Value.object fields).node) := rfl
    show ((Scope.new env).evalConfig _).1 = _
    rw [Scope.evalConfig_of_enter _ rfl henter, h.evalFields_node]
    rfl
  rw [evaluate, readTokens, htokens]
  show (checkEnds (Value.object fields).node.tokens >>= fun _ => _) = _
  rw [hends]
  show (readTree (Value.object fields).node.tokens >>= fun _ => _) = _
  rw [readTree, htree]
  show ((Node.branch .config [(Value.object fields).node]).evaluate env).mapError _ = _
  rw [hvalue]
  rfl

/-- A key with a quote, a string with quotes, a dollar sign and a line feed, and a float as JSON has it. -/
theorem evaluate_write_quotes :
    (Value.object [("it's", .array [.string "\"$x\"\n  y", .integer (-3)]), ("", .object []),
        ("f", .float 1.5)]).Writable (fun x => (Decimal.write .scientific x).toList) ∧
      evaluate .empty "\x7b 'it\\'s' = [ \"\\\"\\$x\\\"\\n  y\" -3 ] '' = \x7b \x7d 'f' = 1.5 \x7d" =
        .ok ⟨[], [("it's", .array [.string "\"$x\"\n  y", .integer (-3)]), ("", .object []),
          ("f", .float 1.5)]⟩ := by
  have hfloat : IsFloatText (Decimal.write .scientific 1.5).toList := by
    have htext : (Decimal.write .scientific 1.5).toList = ['1', '.', '5'] := by
      decide +kernel
    rw [htext]
    exact ⟨[], ['1'], ['5'], [], Or.inl rfl, ⟨by simp, by simp⟩, ⟨by simp, by simp⟩, Or.inl rfl, rfl⟩
  have hread : Decimal.readFloat (Decimal.write .scientific 1.5).toList = some 1.5 := by
    decide +kernel
  have hwritable : (Value.object [("it's", .array [.string "\"$x\"\n  y", .integer (-3)]),
      ("", .object []), ("f", .float 1.5)]).Writable
        (fun x => (Decimal.write .scientific x).toList) := by
    refine .object (by decide) (by decide) ?_
    simp only [List.forall_mem_cons]
    refine ⟨.array ?_, .object .nil (fun _ h => absurd h List.not_mem_nil)
      (fun _ h => absurd h List.not_mem_nil), .float hfloat hread, fun _ h => absurd h List.not_mem_nil⟩
    simp only [List.forall_mem_cons]
    exact ⟨.string _, .integer _, fun _ h => absurd h List.not_mem_nil⟩
  have htext : (Value.object [("it's", .array [.string "\"$x\"\n  y", .integer (-3)]),
      ("", .object []), ("f", .float 1.5)]).write (fun x => (Decimal.write .scientific x).toList) =
        "\x7b 'it\\'s' = [ \"\\\"\\$x\\\"\\n  y\" -3 ] '' = \x7b \x7d 'f' = 1.5 \x7d".toList := by
    decide +kernel
  have hevaluate := evaluate_write .empty hwritable
  rw [htext, String.ofList_toList] at hevaluate
  exact ⟨hwritable, hevaluate⟩

end ConfigLang
