import ConfigLang.Proofs.Token.Readers
import ConfigLang.Token.Spelling

/-!
# Which rule reads a token

The rules of a mode are tried in order, and a written token has to be read by the rule of its own kind.
The rules in front of that one mostly look for tokens that begin with other characters. Where they do
not, what follows the first character tells the tokens apart.

* `Reader.firsts`, `Reader.begins` - the characters that the tokens of a reader begin with.
* `Reader.begins_of_read` - what is read begins with one of them.
* `Reader.rivals` - the readers in front of a reader that share a first character with it.
* `Token.goesOn` - the characters that may not follow a token.
* `Mode.transition?` - what a mode does with the tokens of a kind.
* `Mode.read_eq_some`, `Mode.exists_rule_of_read` - the rule that is used is the first one that reads.
* `Mode.read_eq_some_of_rivals` - only its rivals can be in the way of a rule.
* `Token.ReadFrom` - the texts that a token is read from; those it is written with are among them.
* `Mode.read_append` - the result: a mode reads a token of any kind it has a rule for.
-/

namespace ConfigLang

/-! ### First characters -/

/-- The ASCII digits. -/
def asciiDigits : List Char := ['0', '1', '2', '3', '4', '5', '6', '7', '8', '9']

theorem mem_asciiDigits {c : Char} (h : c.isDigit = true) : c ∈ asciiDigits := by
  have hrange : 48 ≤ c.toNat ∧ c.toNat ≤ 57 := by
    simpa [Char.isDigit, UInt32.le_iff_toNat_le] using h
  have hdigits : ∀ n < 58, 48 ≤ n → Char.ofNat n ∈ asciiDigits := by
    decide
  have hc := hdigits c.toNat (by omega) hrange.1
  rwa [Char.ofNat_toNat] at hc

namespace Reader

/-- The characters that the tokens of a reader begin with. There is no list of them for the readers of
bare keys and of characters. -/
def firsts : Reader → List Char
  | symbol s => s.spelling.take 1
  | input => ['$']
  | float => '-' :: asciiDigits
  | hexInteger => ['0']
  | integer => '-' :: '_' :: asciiDigits
  | quotedSegment => ['\'']
  | bareSegment => []
  | escape => ['\\']
  | characters => []

/-- A token of the reader may begin with the character. -/
def begins : Reader → Char → Bool
  | bareSegment, c => Lexeme.isBareChar c
  | characters, c => Lexeme.isTextChar c
  | r, c => r.firsts.contains c

theorem splitMinus_cons {c : Char} {text : List Char} (h : c ≠ '-') :
    Lexeme.splitMinus (c :: text) = ([], c :: text) := by
  rw [Lexeme.splitMinus]
  intro rest heq
  exact h (List.cons.inj heq).1

/-- Each character of a decimal integer but for its sign may also begin one. -/
theorem begins_integer {c : Char} (h : (c.isDigit || c == '_') = true) : integer.begins c = true := by
  refine List.contains_iff_mem.2 (List.mem_cons_of_mem '-' ?_)
  rcases Bool.or_eq_true_iff.1 h with hdigit | hunderscore
  · exact List.mem_cons_of_mem '_' (mem_asciiDigits hdigit)
  · exact List.mem_cons.2 (Or.inl (beq_iff_eq.1 hunderscore))

/-- What a reader reads begins with a character that its tokens may begin with. -/
theorem begins_of_read {r : Reader} {c : Char} {text : List Char} {l : Lexeme}
    (h : r.read (c :: text) = some l) : r.begins c = true := by
  cases r with
  | symbol s =>
    obtain ⟨hs, -⟩ := Lexeme.symbol?_eq_some_iff.1 h
    obtain ⟨first, others, hspelling⟩ := List.exists_cons_of_ne_nil s.spelling_ne_nil
    rw [hspelling, List.cons_prefix_cons] at hs
    simp [begins, firsts, hspelling, hs.1]
  | input =>
    rw [read] at h
    obtain ⟨letter, rest, heq, -⟩ := Lexeme.input?_eq_some_iff.1 h
    rw [(List.cons.inj heq).1]
    rfl
  | float =>
    obtain ⟨spelling, value, hspelling, -⟩ := Lexeme.float?_eq_some_iff.1 h
    by_cases hminus : c = '-'
    · rw [hminus]
      rfl
    · by_cases hdigit : c.isDigit = true
      · exact List.contains_iff_mem.2 (List.mem_cons_of_mem '-' (mem_asciiDigits hdigit))
      · -- There are no digits in front of the point.
        simp only [Lexeme.floatSpelling, splitMinus_cons hminus, List.takeWhile_cons_of_neg hdigit] at hspelling
        split at hspelling <;> simp at hspelling
  | hexInteger =>
    rw [read] at h
    obtain ⟨rest, value, heq, -⟩ := Lexeme.hexInteger?_eq_some_iff.1 h
    rw [(List.cons.inj heq).1]
    rfl
  | integer =>
    rw [read] at h
    obtain ⟨run, value, hrun, hdigits, -⟩ := Lexeme.integer?_eq_some_iff.1 h
    by_cases hminus : c = '-'
    · rw [hminus]
      rfl
    · rw [splitMinus_cons hminus] at hrun
      by_contra hbegins
      have hempty : (c :: text).takeWhile (fun c => c.isDigit || c == '_') = [] :=
        List.takeWhile_cons_of_neg (mt begins_integer hbegins)
      exact hdigits (by rw [← hrun, hempty]; rfl)
  | quotedSegment =>
    rw [read] at h
    obtain ⟨rest, key, spelling, heq, -⟩ := Lexeme.quotedSegment?_eq_some_iff.1 h
    rw [(List.cons.inj heq).1]
    rfl
  | bareSegment =>
    rw [read] at h
    by_contra hc
    exact (Lexeme.bareSegment?_eq_some_iff.1 h).1 (List.takeWhile_cons_of_neg hc)
  | escape =>
    rw [read] at h
    rcases Lexeme.escape?_eq_some_iff.1 h with ⟨rest, char, heq, -⟩ | ⟨letter, rest, char, heq, -⟩
    all_goals
      rw [(List.cons.inj heq).1]
      rfl
  | characters =>
    rw [read] at h
    by_contra hc
    exact (Lexeme.characters?_eq_some_iff.1 h).1 (List.takeWhile_cons_of_neg hc)

/-- A reader reads nothing where none of its tokens can begin. -/
theorem read_eq_none {r : Reader} {c : Char} (h : r.begins c = false) (text : List Char) :
    r.read (c :: text) = none := by
  refine Option.eq_none_iff_forall_ne_some.2 fun l hl => ?_
  rw [begins_of_read hl] at h
  cases h

theorem mem_firsts_of_begins {r : Reader} {c : Char} (hbare : r ≠ bareSegment)
    (hcharacters : r ≠ characters) (h : r.begins c = true) : c ∈ r.firsts := by
  cases r with
  | bareSegment => exact absurd rfl hbare
  | characters => exact absurd rfl hcharacters
  | _ => exact List.contains_iff_mem.1 h

/-- Readers whose tokens begin with other characters. -/
theorem begins_eq_false_of_disjoint {r other : Reader} (hbare : r ≠ bareSegment) (hcharacters : r ≠ characters)
    (hdisjoint : r.firsts.any other.begins = false) {c : Char} (hc : other.begins c = true) :
    r.begins c = false := by
  cases hbegins : r.begins c with
  | false => rfl
  | true =>
    have hfirst := mem_firsts_of_begins hbare hcharacters hbegins
    exact absurd hc (List.any_eq_false.1 hdisjoint c hfirst)

theorem any_gap_firsts (r : Reader) :
    (r.firsts.any fun c => Lexeme.isSpace c || c == '/') = false := by
  cases r with
  | symbol s => cases s <;> decide
  | _ => decide

/-- No token begins like a gap, but for bare segments and runs of characters. -/
theorem not_gap_of_mem_firsts {r : Reader} {c : Char} (h : c ∈ r.firsts) :
    Lexeme.isSpace c = false ∧ c ≠ '/' := by
  simpa using List.any_eq_false.1 (any_gap_firsts r) c h

/-! ### Rules in front of a rule -/

/-- The readers that come before a reader though their tokens may begin with the same character. -/
def rivals : Reader → List Reader
  | symbol .dot => [symbol .spread]
  | hexInteger => [float]
  | integer => [float, hexInteger]
  | _ => []

/-- The kind of the tokens that a reader reads. -/
def kind : Reader → Token.Kind
  | symbol s => .symbol s
  | input => .input
  | float => .float
  | hexInteger => .integer
  | integer => .integer
  | quotedSegment => .segment
  | bareSegment => .segment
  | escape => .escape
  | characters => .characters

end Reader

/-- The reader of the written tokens of a kind. -/
def Token.Kind.reader : Token.Kind → Reader
  | symbol s => .symbol s
  | segment => .quotedSegment
  | float => .float
  | integer => .integer
  | escape => .escape
  | characters => .characters
  | input => .input

namespace Mode

variable {mode : Mode} {rule earlier : Rule} {kind : Token.Kind} {text : List Char}

/-- What a mode does with the tokens of a kind, if it has a rule for them. -/
def transition? (mode : Mode) (kind : Token.Kind) : Option Transition :=
  (mode.rules.find? (·.reader.kind = kind)).map (·.transition)

/-- Beside each rule a mode has one for the written tokens of the same kind, with the same effect. -/
theorem mem_rules_of_mem_rules (h : rule ∈ mode.rules) :
    ⟨rule.reader.kind.reader, rule.transition⟩ ∈ mode.rules := by
  revert h rule
  cases mode <;> decide

theorem exists_rule_of_transition? {transition : Transition}
    (h : mode.transition? kind = some transition) :
    ∃ rule ∈ mode.rules, rule.reader.kind = kind ∧ rule.transition = transition := by
  obtain ⟨rule, hrule, htransition⟩ := Option.map_eq_some_iff.1 h
  have hkind := List.find?_some hrule
  exact ⟨rule, List.mem_of_find?_eq_some hrule, of_decide_eq_true hkind, htransition⟩

theorem mem_rules_of_transition? {transition : Transition}
    (h : mode.transition? kind = some transition) : ⟨kind.reader, transition⟩ ∈ mode.rules := by
  obtain ⟨rule, hrule, rfl, rfl⟩ := exists_rule_of_transition? h
  exact mem_rules_of_mem_rules hrule

theorem firsts_of_earlier (mode : Mode) : ∀ rule ∈ mode.rules, rule.reader ≠ .bareSegment →
    ∀ earlier ∈ mode.rules.takeWhile (· ≠ rule), earlier.reader ∉ rule.reader.rivals →
      earlier.reader ≠ .bareSegment ∧ earlier.reader ≠ .characters ∧
        earlier.reader.firsts.any rule.reader.begins = false := by
  cases mode <;> decide

/-- In front of a rule there are only its rivals and rules for tokens that begin with other
characters. -/
theorem begins_eq_false_of_earlier (hrule : rule ∈ mode.rules)
    (hbare : rule.reader ≠ .bareSegment) (hearlier : earlier ∈ mode.rules.takeWhile (· ≠ rule))
    (hrival : earlier.reader ∉ rule.reader.rivals) {c : Char} (hc : rule.reader.begins c = true) :
    earlier.reader.begins c = false := by
  obtain ⟨hbare, hcharacters, hdisjoint⟩ :=
    firsts_of_earlier mode rule hrule hbare earlier hearlier hrival
  exact Reader.begins_eq_false_of_disjoint hbare hcharacters hdisjoint hc

/-- A rule is used where it reads a token and the rules in front of it read none. -/
theorem read_eq_some {lexeme : Lexeme} (hrule : rule ∈ mode.rules)
    (hearlier : ∀ earlier ∈ mode.rules.takeWhile (· ≠ rule), earlier.reader.read text = none)
    (hread : rule.reader.read text = some lexeme) :
    mode.read text = some (lexeme, rule.transition) := by
  unfold Mode.read
  generalize mode.rules = rules at hrule hearlier
  induction rules with
  | nil => exact absurd hrule List.not_mem_nil
  | cons first rules ih =>
    by_cases hfirst : first = rule
    · rw [hfirst, List.findSome?_cons, Rule.read, hread]
      rfl
    · have htake : (first :: rules).takeWhile (· ≠ rule) = first :: rules.takeWhile (· ≠ rule) :=
        List.takeWhile_cons_of_pos (by simpa using hfirst)
      rw [htake] at hearlier
      rw [List.findSome?_cons, Rule.read, hearlier first List.mem_cons_self]
      refine ih ?_ fun earlier h => hearlier earlier (List.mem_cons_of_mem _ h)
      exact (List.mem_cons.1 hrule).resolve_left (Ne.symm hfirst)

/-- A rule is used where it reads a token and none of its rivals does. -/
theorem read_eq_some_of_rivals {lexeme : Lexeme} {c : Char} (hrule : rule ∈ mode.rules)
    (hbare : rule.reader ≠ .bareSegment) (hc : rule.reader.begins c = true)
    (hrivals : ∀ r ∈ rule.reader.rivals, r.read (c :: text) = none)
    (hread : rule.reader.read (c :: text) = some lexeme) :
    mode.read (c :: text) = some (lexeme, rule.transition) := by
  refine read_eq_some hrule (fun earlier hearlier => ?_) hread
  by_cases hrival : earlier.reader ∈ rule.reader.rivals
  · exact hrivals earlier.reader hrival
  · exact Reader.read_eq_none (begins_eq_false_of_earlier hrule hbare hearlier hrival hc) text

/-- What a mode reads is read by the first rule that reads anything. -/
theorem exists_rule_of_read {lexeme : Lexeme} {transition : Transition}
    (h : mode.read text = some (lexeme, transition)) :
    ∃ rule ∈ mode.rules, rule.reader.read text = some lexeme ∧ rule.transition = transition ∧
      ∀ earlier ∈ mode.rules.takeWhile (· ≠ rule), earlier.reader.read text = none := by
  obtain ⟨before, rule, after, hrules, hrule, hbefore⟩ := List.findSome?_eq_some_iff.1 h
  obtain ⟨_, hread, heq⟩ := Option.map_eq_some_iff.1 hrule
  obtain ⟨rfl, rfl⟩ := Prod.mk.inj heq
  have hnone : ∀ earlier ∈ before, earlier.reader.read text = none :=
    fun earlier hearlier => Option.map_eq_none_iff.1 (hbefore earlier hearlier)
  refine ⟨rule, hrules ▸ List.mem_append_right _ List.mem_cons_self, hread, rfl, ?_⟩
  intro earlier hearlier
  have hne : ∀ other ∈ before, decide (other ≠ rule) = true := by
    intro other hother
    refine decide_eq_true ?_
    rintro rfl
    rw [hnone other hother] at hread
    cases hread
  rw [hrules, List.takeWhile_append_of_pos hne, List.takeWhile_cons_of_neg (by simp),
    List.append_nil] at hearlier
  exact hnone earlier hearlier

end Mode

/-! ### Written tokens -/

/-- The first character of a decimal integer is a sign, a digit or an underscore. -/
theorem Lexeme.IsDecimalText.exists_cons_begins {minus run : List Char} (h : IsDecimalText minus run)
    (text : List Char) :
    ∃ c tail, minus ++ (run ++ text) = c :: tail ∧ Reader.integer.begins c = true := by
  rcases h.sign with rfl | rfl
  · obtain ⟨d, hd, -⟩ := h.exists_digit
    obtain ⟨c, tail, rfl⟩ := List.exists_cons_of_ne_nil (List.ne_nil_of_mem hd)
    exact ⟨c, tail ++ text, rfl, Reader.begins_integer (h.digits c List.mem_cons_self)⟩
  · exact ⟨'-', run ++ text, rfl, by decide⟩

namespace Token

variable {t : Token} {written text : List Char}

/-- The characters that may not follow a token, since it could go on with them. -/
def goesOn : Token → Char → Bool
  | symbol .dot => (· == '.')
  | float _ => Lexeme.goesOnNumber
  | integer _ => Lexeme.goesOnNumber
  | characters _ => Lexeme.isTextChar
  | input _ => Lexeme.isNameChar
  | _ => fun _ => false

/-- A float begins with its sign or with a digit. -/
theorem exists_cons_of_digits {minus digits : List Char} (hminus : minus = [] ∨ minus = ['-'])
    (hdigits : IsDigits digits) (tail : List Char) :
    ∃ c rest, minus ++ (digits ++ tail) = c :: rest ∧ c ∈ '-' :: asciiDigits := by
  rcases hminus with rfl | rfl
  · obtain ⟨c, rest, rfl⟩ := List.exists_cons_of_ne_nil hdigits.1
    have hc := mem_asciiDigits (hdigits.2 c List.mem_cons_self)
    exact ⟨c, rest ++ tail, rfl, List.mem_cons_of_mem _ hc⟩
  · exact ⟨'-', digits ++ tail, rfl, List.mem_cons_self⟩

/-- A written token begins with a character of its reader. -/
theorem WrittenAs.exists_cons_begins (h : t.WrittenAs written) :
    ∃ c tail, written = c :: tail ∧ t.kind.reader.begins c = true := by
  cases h with
  | symbol s => cases s <;> exact ⟨_, _, rfl, rfl⟩
  | segment hkey => exact ⟨_, _, rfl, rfl⟩
  | float htext hvalue =>
    obtain ⟨minus, whole, fraction, exponent, hminus, hwhole, -, -, rfl⟩ := htext
    obtain ⟨c, rest, heq, hc⟩ := exists_cons_of_digits hminus hwhole ('.' :: fraction ++ exponent)
    refine ⟨c, rest, ?_, List.contains_iff_mem.2 hc⟩
    rw [← heq]
    simp
  | integer n =>
    obtain ⟨c, rest, heq, hc⟩ := (Lexeme.isDecimalText_writeInt n.toInt).exists_cons_begins []
    refine ⟨c, rest, ?_, hc⟩
    rw [← heq, List.append_nil, Lexeme.writeInt_toList]
  | escape hc => exact ⟨_, _, rfl, rfl⟩
  | characters hne hrun =>
    obtain ⟨c, rest, rfl⟩ := List.exists_cons_of_ne_nil hne
    refine ⟨c, rest, rfl, ?_⟩
    simpa [Reader.begins, kind, Kind.reader, Lexeme.isTextChar, and_assoc] using
      hrun c List.mem_cons_self
  | input hname =>
    obtain ⟨letter, rest, rfl, -, -⟩ := hname
    exact ⟨_, _, rfl, rfl⟩

theorem WrittenAs.read_append (h : t.WrittenAs written) (htext : BeginsWithout t.goesOn text) :
    t.kind.reader.read (written ++ text) = some ⟨t, written⟩ := by
  cases h with
  | symbol s =>
    have hprefix : s.spelling.isPrefixOf (s.spelling ++ text) = true :=
      List.isPrefixOf_iff_prefix.2 (List.prefix_append _ _)
    rw [kind, Kind.reader, Reader.read, Lexeme.symbol?, if_pos hprefix]
  | segment hkey =>
    rw [kind, Kind.reader, Reader.read, Lexeme.quotedSegment?_append hkey text]
  | float hfloat hvalue =>
    rw [kind, Kind.reader, Reader.read, Lexeme.float?_append hfloat hvalue htext]
  | integer n =>
    rw [kind, Kind.reader, Reader.read, Lexeme.integer?_append n htext]
  | escape hc =>
    rw [kind, Kind.reader, Reader.read, Lexeme.escape?_append hc text]
  | characters hne hrun =>
    rw [kind, Kind.reader, Reader.read, Lexeme.characters?_append hne hrun htext]
  | input hname =>
    rw [kind, Kind.reader, Reader.read, Lexeme.input?_append hname htext]

theorem WrittenAs.rival_read_append (h : t.WrittenAs written)
    (htext : BeginsWithout t.goesOn text) {r : Reader} (hr : r ∈ t.kind.reader.rivals) :
    r.read (written ++ text) = none := by
  cases h with
  | symbol s =>
    cases s with
    | dot =>
      rw [List.mem_singleton.1 hr]
      refine if_neg fun hprefix => ?_
      obtain ⟨tail, heq⟩ := List.isPrefixOf_iff_prefix.1 hprefix
      exact htext.ne_cons (by decide) tail (List.cons.inj heq).2.symm
    | _ => exact absurd hr List.not_mem_nil
  | integer n =>
    rcases List.mem_cons.1 hr with rfl | hr
    · rw [Reader.read, Lexeme.float?_eq_none_of_integer n htext]
    · rw [List.mem_singleton.1 hr, Reader.read, Lexeme.hexInteger?_eq_none_of_integer n htext]
  | _ => exact absurd hr List.not_mem_nil

/-- The token is read from the text by the reader of its kind, and by no reader in front of it, whatever
follows as long as the token cannot go on there. -/
structure ReadFrom (t : Token) (written : List Char) : Prop where
  exists_cons_begins : ∃ c tail, written = c :: tail ∧ t.kind.reader.begins c = true
  read_append : ∀ {text}, BeginsWithout t.goesOn text →
    t.kind.reader.read (written ++ text) = some ⟨t, written⟩
  rival_read_append : ∀ {text}, BeginsWithout t.goesOn text → ∀ {r}, r ∈ t.kind.reader.rivals →
    r.read (written ++ text) = none

theorem WrittenAs.readFrom (h : t.WrittenAs written) : t.ReadFrom written where
  exists_cons_begins := h.exists_cons_begins
  read_append := h.read_append
  rival_read_append := h.rival_read_append

theorem readFrom_quotedSpelling {key : String} (h : key.toList.getLast? ≠ some '\\') :
    (segment key).ReadFrom (quotedSpelling key.toList) := by
  have hwritten := WrittenAs.segment h
  rw [String.ofList_toList] at hwritten
  exact hwritten.readFrom

end Token

/-- A mode reads a token of any kind it has a rule for. -/
theorem Mode.read_append {mode : Mode} {t : Token} {transition : Transition}
    {written text : List Char} (htransition : mode.transition? t.kind = some transition)
    (hwritten : t.ReadFrom written) (htext : BeginsWithout t.goesOn text) :
    mode.read (written ++ text) = some (⟨t, written⟩, transition) := by
  obtain ⟨c, tail, rfl, hc⟩ := hwritten.exists_cons_begins
  have hbare : t.kind.reader ≠ .bareSegment := by
    cases t <;> exact Reader.noConfusion
  exact read_eq_some_of_rivals (mem_rules_of_transition? htransition) hbare hc
    (fun r hr => hwritten.rival_read_append htext hr) (hwritten.read_append htext)

end ConfigLang
