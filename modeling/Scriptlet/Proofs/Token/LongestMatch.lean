import Mathlib
import Scriptlet.Token.Scan

/-!
# Scanning takes the longest match

The lexical classes, said without scanning, as sets of texts; what it is to cut a text by always
taking the longest member of a class that begins it; and that `Segment.scan` does just that.

## What is here

* `Lexeme kind text` — the text is a member of a class.
* `Longest text s rest` — of all members of classes that begin the text, `s` is the longest, and
  `rest` follows it.
* `Cuts text segments left` — the text cut into longest matches, up to a place where nothing
  matches.
* `measure?_sound`, `measure?_of_lexeme` — the rule for one segment finds a member, and no longer
  one exists.
* `cuts_iff_scan` — scanning is the only way to cut a text.
* `Token.Lexical`, `lexical_of_tokenize` — the tokens of a text belong to the classes of their
  kinds.
* `tokenize_eq_match` — **the tokens of a text**, or what is wrong at the place where cutting stops.
-/

set_option autoImplicit false
namespace Scriptlet

/-! ## Lexical classes -/

/-- The digits. -/
def DigitChar (c : Char) : Prop :=
  '0' ≤ c ∧ c ≤ '9'

/-- The characters that begin a word: the letters without accents, and the underscore. -/
def WordStartChar (c : Char) : Prop :=
  ('A' ≤ c ∧ c ≤ 'Z') ∨ ('a' ≤ c ∧ c ≤ 'z') ∨ c = '_'

/-- The operators and marks of punctuation. -/
def symbols : List (List Char × TokenKind) :=
  [(['=', '='], .equalEqual), (['!', '='], .bangEqual), (['>', '='], .greaterEqual),
   (['<', '='], .lessEqual), (['='], .equal), (['!'], .kwNot), (['>'], .greater), (['<'], .less),
   (['+'], .plus), (['-'], .minus), (['*'], .star), (['/'], .slash),
   (['('], .leftParen), ([')'], .rightParen), (['\x7b'], .leftBrace), (['\x7d'], .rightBrace),
   (['['], .leftBracket), ([']'], .rightBracket), ([';'], .semicolon), ([','], .comma)]

/-- `Lexeme kind text`: the text belongs to a class. -/
inductive Lexeme : SegmentKind → List Char → Prop
  | comment {body : List Char} : '\n' ∉ body → Lexeme .comment ('/' :: '/' :: body)
  | newline : Lexeme .newline ['\n']
  | blanks {cs : List Char} : cs ≠ [] → (∀ c ∈ cs, c = ' ' ∨ c = '\t' ∨ c = '\r') →
      Lexeme .blanks cs
  | whole {ds : List Char} : ds ≠ [] → (∀ d ∈ ds, DigitChar d) → Lexeme (.token .number) ds
  | fraction {ds es : List Char} : ds ≠ [] → (∀ d ∈ ds, DigitChar d) → es ≠ [] →
      (∀ d ∈ es, DigitChar d) → Lexeme (.token .number) (ds ++ '.' :: es)
  | string {body : List Char} : '"' ∉ body → Lexeme (.token .string) ('"' :: (body ++ ['"']))
  | char {c : Char} : c ≠ '\'' → Lexeme (.token .char) ['\'', c, '\'']
  | keyword {text : List Char} {kind : TokenKind} : (String.ofList text, kind) ∈ keywords →
      Lexeme (.token kind) text
  | name {c : Char} {cs : List Char} : WordStartChar c →
      (∀ d ∈ cs, WordStartChar d ∨ DigitChar d) →
      (∀ kind, (String.ofList (c :: cs), kind) ∉ keywords) → Lexeme (.token .identifier) (c :: cs)
  | symbol {text : List Char} {kind : TokenKind} : (text, kind) ∈ symbols →
      Lexeme (.token kind) text

/-- `Longest text s rest`: of all members of classes that begin the text, `s` is the longest, and
`rest` is what follows it. -/
structure Longest (text : List Char) (s : Segment) (rest : List Char) : Prop where
  split : text = s.text ++ rest
  lexeme : Lexeme s.kind s.text
  longest : ∀ kind lexeme, Lexeme kind lexeme → lexeme <+: text → lexeme.length ≤ s.text.length

/-- `Cuts text segments left`: the text is cut into longest matches from left to right, up to a
place where no class matches and `left` is left over. -/
inductive Cuts : List Char → List Segment → List Char → Prop
  | stop {text : List Char} : (∀ kind lexeme, Lexeme kind lexeme → ¬lexeme <+: text) →
      Cuts text [] text
  | step {text rest left : List Char} {s : Segment} {segments : List Segment} :
      Longest text s rest → Cuts rest segments left → Cuts text (s :: segments) left

/-! ## Character classes -/

theorem isDigit_iff {c : Char} : c.isDigit = true ↔ DigitChar c := by
  simp [Char.isDigit, DigitChar, Char.le_def]

theorem isWordStart_iff {c : Char} : isWordStart c = true ↔ WordStartChar c := by
  simp [isWordStart, WordStartChar, Char.isAlpha, Char.isUpper, Char.isLower, Char.le_def, or_assoc]

theorem isWordPart_iff {c : Char} : isWordPart c = true ↔ WordStartChar c ∨ DigitChar c := by
  rw [← isWordStart_iff, ← isDigit_iff]
  simp [isWordPart, isWordStart, Char.isAlphanum, or_right_comm]

theorem isSeparator_iff {c : Char} : isSeparator c = true ↔ c = ' ' ∨ c = '\t' ∨ c = '\r' := by
  simp [isSeparator, or_assoc]

/-! ## Words -/

theorem wordKind_of_keyword {word : List Char} {kind : TokenKind}
    (h : (String.ofList word, kind) ∈ keywords) : wordKind word = kind := by
  rw [wordKind]
  simp only [keywords, List.mem_cons, Prod.mk.injEq, List.not_mem_nil, or_false] at h
  rcases h with ⟨hword, rfl⟩ | ⟨hword, rfl⟩ | ⟨hword, rfl⟩ | ⟨hword, rfl⟩ | ⟨hword, rfl⟩ |
    ⟨hword, rfl⟩ | ⟨hword, rfl⟩ | ⟨hword, rfl⟩ | ⟨hword, rfl⟩ <;> rw [hword] <;> rfl

theorem wordKind_of_not_keyword {word : List Char}
    (h : ∀ kind, (String.ofList word, kind) ∉ keywords) : wordKind word = .identifier := by
  rw [wordKind, List.lookup_eq_none_iff.2]
  · rfl
  · rintro ⟨text, kind⟩ hmem
    exact bne_iff_ne.2 fun heq : String.ofList word = text => h kind (heq ▸ hmem)

/-- A keyword is made like any other word. -/
theorem wordChars_of_keyword {c : Char} {cs : List Char} {kind : TokenKind}
    (h : (String.ofList (c :: cs), kind) ∈ keywords) :
    WordStartChar c ∧ ∀ d ∈ cs, WordStartChar d ∨ DigitChar d := by
  have hwords : ∀ p ∈ keywords, (p.1.toList.head?.all isWordStart &&
      p.1.toList.tail.all isWordPart) = true := by decide
  have hword := hwords _ h
  simp only [String.toList_ofList, List.head?_cons, Option.all_some, List.tail_cons,
    Bool.and_eq_true, List.all_eq_true] at hword
  exact ⟨isWordStart_iff.1 hword.1, fun d hd => isWordPart_iff.1 (hword.2 d hd)⟩

/-- A word is a keyword or a name, as `wordKind` has it. -/
theorem Lexeme.word {c : Char} {cs : List Char} (hc : WordStartChar c)
    (hcs : ∀ d ∈ cs, WordStartChar d ∨ DigitChar d) :
    Lexeme (.token (wordKind (c :: cs))) (c :: cs) := by
  by_cases h : ∃ kind, (String.ofList (c :: cs), kind) ∈ keywords
  · obtain ⟨kind, hkind⟩ := h
    rw [wordKind_of_keyword hkind]
    exact .keyword hkind
  · have hnot := not_exists.1 h
    rw [wordKind_of_not_keyword hnot]
    exact .name hc hcs hnot

/-! ## The rules find members of classes -/

namespace Segment

theorem take_length_takeWhile (p : Char → Bool) (cs : List Char) :
    cs.take (cs.takeWhile p).length = cs.takeWhile p :=
  (List.prefix_iff_eq_take.1 (List.takeWhile_prefix p)).symm

theorem length_takeWhile_le (p : Char → Bool) (cs : List Char) :
    (cs.takeWhile p).length ≤ cs.length :=
  (List.takeWhile_prefix p).length_le

theorem takeWhile_ne_append {q : Char} {body : List Char} (h : q ∉ body) (rest : List Char) :
    (body ++ q :: rest).takeWhile (· ≠ q) = body := by
  rw [List.takeWhile_append_of_pos, List.takeWhile_cons_of_neg (by simp), List.append_nil]
  intro c hc
  exact decide_eq_true fun heq => h (heq ▸ hc)

theorem length_le_length_takeWhile {p : Char → Bool} {t : List Char} (h : ∀ c ∈ t, p c = true)
    (rest : List Char) : t.length ≤ ((t ++ rest).takeWhile p).length := by
  rw [List.takeWhile_append_of_pos h, List.length_append]
  omega

theorem numberTail_fraction {ds : List Char} {d : Char} (hds : ∀ x ∈ ds, x.isDigit = true)
    (hd : d.isDigit = true) (cs : List Char) :
    numberTail (ds ++ '.' :: d :: cs) = ds.length + 2 + (cs.takeWhile Char.isDigit).length := by
  have hwhole : (ds ++ '.' :: d :: cs).takeWhile Char.isDigit = ds := by
    rw [List.takeWhile_append_of_pos hds, List.takeWhile_cons_of_neg (by decide), List.append_nil]
  simp [numberTail, hwhole, hd]

/-- Where no fraction follows, a number ends with its digits. -/
theorem numberTail_cases (cs : List Char) :
    (∃ ds d rest, (∀ x ∈ ds, x.isDigit = true) ∧ d.isDigit = true ∧ cs = ds ++ '.' :: d :: rest) ∨
      numberTail cs = (cs.takeWhile Char.isDigit).length := by
  rw [numberTail]
  split
  · next d rest hdrop =>
    split
    · next hd =>
      refine .inl
        ⟨cs.takeWhile Char.isDigit, d, rest, fun x hx => List.mem_takeWhile_imp hx, hd, ?_⟩
      rw [← hdrop]
      exact List.prefix_append_drop (List.takeWhile_prefix Char.isDigit)
    · exact .inr rfl
  · exact .inr rfl

theorem numberTail_sound {c : Char} (hc : c.isDigit = true) (cs : List Char) :
    numberTail cs ≤ cs.length ∧ Lexeme (.token .number) (c :: cs.take (numberTail cs)) := by
  rcases numberTail_cases cs with ⟨ds, d, rest, hds, hd, rfl⟩ | htail
  · have hes : ∀ x ∈ d :: rest.takeWhile Char.isDigit, DigitChar x :=
      List.forall_mem_cons.2
        ⟨isDigit_iff.1 hd, fun x hx => isDigit_iff.1 (List.mem_takeWhile_imp hx)⟩
    have hwhole : ∀ x ∈ c :: ds, DigitChar x :=
      List.forall_mem_cons.2 ⟨isDigit_iff.1 hc, fun x hx => isDigit_iff.1 (hds x hx)⟩
    have htake : (ds ++ '.' :: d :: rest).take (numberTail (ds ++ '.' :: d :: rest)) =
        ds ++ '.' :: d :: rest.takeWhile Char.isDigit := by
      rw [numberTail_fraction hds hd, Nat.add_assoc, List.take_length_add_append, Nat.add_comm,
        List.take_succ_cons, List.take_succ_cons, take_length_takeWhile]
    refine ⟨?_, ?_⟩
    · have hle := length_takeWhile_le Char.isDigit rest
      rw [numberTail_fraction hds hd, List.length_append, List.length_cons, List.length_cons]
      omega
    · rw [htake]
      exact .fraction (List.cons_ne_nil c ds) hwhole (List.cons_ne_nil _ _) hes
  · rw [htail, take_length_takeWhile]
    refine ⟨length_takeWhile_le _ cs, .whole (List.cons_ne_nil _ _) ?_⟩
    exact List.forall_mem_cons.2
      ⟨isDigit_iff.1 hc, fun x hx => isDigit_iff.1 (List.mem_takeWhile_imp hx)⟩

/-- An operator or mark is one character, or two if an equals sign follows. -/
theorem symbol?_cases {c : Char} {cs : List Char} {kind : TokenKind} {n : Nat}
    (h : symbol? c cs = some (kind, n)) :
    (n = 0 ∧ ([c], kind) ∈ symbols) ∨
      (n = 1 ∧ cs.head? = some '=' ∧ ([c, '='], kind) ∈ symbols) := by
  rw [symbol?.eq_def] at h
  split at h <;> cases h <;> simp_all [symbols]

theorem symbol?_sound {c : Char} {cs : List Char} {kind : TokenKind} {n : Nat}
    (h : symbol? c cs = some (kind, n)) :
    n ≤ cs.length ∧ Lexeme (.token kind) (c :: cs.take n) := by
  rcases symbol?_cases h with ⟨rfl, hmem⟩ | ⟨rfl, hhead, hmem⟩
  · exact ⟨Nat.zero_le _, .symbol hmem⟩
  · obtain ⟨rest, rfl⟩ : ∃ rest, cs = '=' :: rest := List.head?_eq_some_iff.1 hhead
    exact ⟨by simp, .symbol hmem⟩

/-- **The rule for a segment finds a member of its class.** -/
theorem measure?_sound {c : Char} {cs : List Char} {kind : SegmentKind} {n : Nat}
    (h : measure? c cs = some (kind, n)) : n ≤ cs.length ∧ Lexeme kind (c :: cs.take n) := by
  rw [measure?.eq_def] at h
  split at h
  · next hcomment =>
    obtain ⟨rfl, hhead⟩ : c = '/' ∧ cs.head? = some '/' := by simpa using hcomment
    obtain ⟨rest, rfl⟩ : ∃ rest, cs = '/' :: rest := List.head?_eq_some_iff.1 hhead
    cases h
    refine ⟨length_takeWhile_le _ _, ?_⟩
    rw [take_length_takeWhile, List.takeWhile_cons_of_pos (by decide)]
    exact .comment fun hfeed => by simpa using List.mem_takeWhile_imp hfeed
  split at h
  · next hc =>
    cases h
    exact ⟨Nat.zero_le _, hc ▸ .newline⟩
  split at h
  · next hc =>
    cases h
    refine ⟨length_takeWhile_le _ _, ?_⟩
    rw [take_length_takeWhile]
    exact .blanks (List.cons_ne_nil _ _) (List.forall_mem_cons.2
      ⟨isSeparator_iff.1 hc, fun x hx => isSeparator_iff.1 (List.mem_takeWhile_imp hx)⟩)
  split at h
  · next hc =>
    cases h
    exact numberTail_sound hc cs
  split at h
  · next hc =>
    split at h
    · next hquote =>
      obtain ⟨body, rest, rfl, hbody⟩ := List.eq_append_cons_of_mem (List.contains_iff_mem.1 hquote)
      rw [takeWhile_ne_append hbody] at h
      cases h
      refine ⟨by simp, ?_⟩
      rw [List.take_length_add_append, hc]
      exact .string hbody
    · cases h
  split at h
  · next hc =>
    split at h
    · next x y rest _ =>
      split at h
      · next hxy =>
        cases h
        obtain ⟨hx, rfl⟩ : x ≠ '\'' ∧ y = '\'' := by simpa using hxy
        exact ⟨by simp, hc ▸ .char hx⟩
      · cases h
    · cases h
  split at h
  · next hc =>
    cases h
    refine ⟨length_takeWhile_le _ _, ?_⟩
    rw [take_length_takeWhile]
    exact .word (isWordStart_iff.1 hc) fun x hx => isWordPart_iff.1 (List.mem_takeWhile_imp hx)
  · obtain ⟨⟨kind', m⟩, hsymbol, heq⟩ := Option.map_eq_some_iff.1 h
    cases heq
    exact symbol?_sound hsymbol

/-! ## No rule stops early

One equation for each rule of `measure?`; then every member of a class that begins a text is no
longer than what the rule for its first character takes. -/

theorem measure?_comment (cs : List Char) :
    measure? '/' ('/' :: cs) = some (.comment, (cs.takeWhile (· ≠ '\n')).length + 1) := by
  simp [measure?]

theorem measure?_newline (cs : List Char) : measure? '\n' cs = some (.newline, 0) := by
  simp [measure?]

theorem measure?_separator {c : Char} (h : isSeparator c = true) (cs : List Char) :
    measure? c cs = some (.blanks, (cs.takeWhile isSeparator).length) := by
  have hslash : c ≠ '/' := by rintro rfl; cases h
  have hfeed : c ≠ '\n' := by rintro rfl; cases h
  simp [measure?, h, hslash, hfeed]

theorem measure?_digit {c : Char} (h : c.isDigit = true) (cs : List Char) :
    measure? c cs = some (.token .number, numberTail cs) := by
  have hslash : c ≠ '/' := by rintro rfl; cases h
  have hfeed : c ≠ '\n' := by rintro rfl; cases h
  have hseparator : isSeparator c = false := by
    rw [Bool.eq_false_iff, Ne, isSeparator_iff]
    rintro (rfl | rfl | rfl) <;> cases h
  simp [measure?, h, hslash, hfeed, hseparator]

theorem measure?_string {body : List Char} (h : '"' ∉ body) (rest : List Char) :
    measure? '"' (body ++ '"' :: rest) = some (.token .string, body.length + 1) := by
  have hlength := congrArg List.length (takeWhile_ne_append h rest)
  simp only [ne_eq, decide_not] at hlength
  simp [measure?, isSeparator, hlength]

theorem measure?_char {c : Char} (h : c ≠ '\'') (rest : List Char) :
    measure? '\'' (c :: '\'' :: rest) = some (.token .char, 2) := by
  simp [measure?, isSeparator, h]

theorem measure?_word {c : Char} (h : isWordStart c = true) (cs : List Char) :
    measure? c cs =
      some (.token (wordKind (c :: cs.takeWhile isWordPart)),
        (cs.takeWhile isWordPart).length) := by
  have hslash : c ≠ '/' := by rintro rfl; cases h
  have hfeed : c ≠ '\n' := by rintro rfl; cases h
  have hquote : c ≠ '"' := by rintro rfl; cases h
  have hapostrophe : c ≠ '\'' := by rintro rfl; cases h
  have hseparator : isSeparator c = false := by
    rw [Bool.eq_false_iff, Ne, isSeparator_iff]
    rintro (rfl | rfl | rfl) <;> cases h
  have hdigit : c.isDigit = false := by
    rw [Bool.eq_false_iff, Ne, isDigit_iff]
    rintro ⟨h0, h9⟩
    rcases isWordStart_iff.1 h with ⟨hA, -⟩ | ⟨ha, -⟩ | rfl
    · exact absurd (hA.trans h9) (by decide)
    · exact absurd (ha.trans h9) (by decide)
    · exact absurd h9 (by decide)
  simp [measure?, h, hslash, hfeed, hquote, hapostrophe, hseparator, hdigit]

/-- The rule for words stops early before no word. -/
theorem measure?_of_word {c : Char} {t : List Char} (hc : WordStartChar c)
    (ht : ∀ d ∈ t, WordStartChar d ∨ DigitChar d) (rest : List Char) :
    ∃ kind n, measure? c (t ++ rest) = some (kind, n) ∧ t.length ≤ n ∧
      (t.length = n → kind = .token (wordKind (c :: t))) := by
  have hall : ∀ x ∈ t, isWordPart x = true := fun x hx => isWordPart_iff.2 (ht x hx)
  refine ⟨_, _, measure?_word (isWordStart_iff.2 hc) _, length_le_length_takeWhile hall rest, ?_⟩
  intro hlength
  have htake : t <+: (t ++ rest).takeWhile isWordPart := by
    rw [List.takeWhile_append_of_pos hall]
    exact List.prefix_append _ _
  rw [← htake.eq_of_length hlength]

theorem measure?_symbol {c : Char} {cs t : List Char} {kind : TokenKind}
    (h : (c :: t, kind) ∈ symbols) (hcomment : ¬(c = '/' ∧ cs.head? = some '/')) :
    measure? c cs = (symbol? c cs).map fun (kind, n) => (.token kind, n) := by
  have hplain : ∀ p ∈ symbols, ∀ x ∈ p.1.head?, x ≠ '\n' ∧ isSeparator x = false ∧
      x.isDigit = false ∧ x ≠ '"' ∧ x ≠ '\'' ∧ isWordStart x = false := by
    simp [symbols, isSeparator, isWordStart]
  obtain ⟨hfeed, hseparator, hdigit, hquote, hapostrophe, hword⟩ := hplain _ h c rfl
  simp [measure?, hcomment, hfeed, hseparator, hdigit, hquote, hapostrophe, hword]

theorem symbol?_of_mem {c : Char} {t : List Char} {kind : TokenKind} (h : (c :: t, kind) ∈ symbols)
    (rest : List Char) : ∃ kind' n, symbol? c (t ++ rest) = some (kind', n) ∧ t.length ≤ n ∧
      (t.length = n → kind' = kind) := by
  generalize hp : (c :: t, kind) = p at h
  simp only [symbols] at h
  by_cases hrest : rest.head? = some '='
  all_goals
    fin_cases h <;> cases hp <;> simp [symbol?, hrest]

theorem length_le_numberTail {ds : List Char} (h : ∀ d ∈ ds, d.isDigit = true)
    (rest : List Char) : ds.length ≤ numberTail (ds ++ rest) := by
  rcases numberTail_cases (ds ++ rest) with ⟨es, e, rest', hes, he, heq⟩ | htail
  · rw [heq, numberTail_fraction hes he]
    have hwhole := length_le_length_takeWhile h rest
    rw [heq, List.takeWhile_append_of_pos hes, List.takeWhile_cons_of_neg (by decide),
      List.append_nil] at hwhole
    omega
  · rw [htail]
    exact length_le_length_takeWhile h rest

/-- **No rule stops early.**  If a member of a class begins a text, the rule for its first character
applies and takes at least as much; and if it takes no more, it finds the same class. -/
theorem measure?_of_lexeme {kind : SegmentKind} {c : Char} {t : List Char}
    (h : Lexeme kind (c :: t)) (rest : List Char) :
    ∃ kind' n, measure? c (t ++ rest) = some (kind', n) ∧ t.length ≤ n ∧
      (t.length = n → kind' = kind) := by
  generalize htext : c :: t = text at h
  cases h with
  | @comment body hbody =>
    cases htext
    have hall : ∀ x ∈ body, decide (x ≠ '\n') = true := fun x hx =>
      decide_eq_true fun heq => hbody (heq ▸ hx)
    refine ⟨_, _, measure?_comment _, ?_, fun _ => rfl⟩
    exact Nat.succ_le_succ (length_le_length_takeWhile hall rest)
  | newline =>
    cases htext
    exact ⟨_, _, measure?_newline _, le_rfl, fun _ => rfl⟩
  | blanks _ hcs =>
    cases htext
    rw [List.forall_mem_cons] at hcs
    refine ⟨_, _, measure?_separator (isSeparator_iff.2 hcs.1) _, ?_, fun _ => rfl⟩
    exact length_le_length_takeWhile (fun x hx => isSeparator_iff.2 (hcs.2 x hx)) rest
  | whole _ hds =>
    cases htext
    rw [List.forall_mem_cons] at hds
    refine ⟨_, _, measure?_digit (isDigit_iff.2 hds.1) _, ?_, fun _ => rfl⟩
    exact length_le_numberTail (fun x hx => isDigit_iff.2 (hds.2 x hx)) rest
  | @fraction ds es hne hds hne' hes =>
    obtain ⟨d, ds, rfl⟩ := List.exists_cons_of_ne_nil hne
    obtain ⟨e, es, rfl⟩ := List.exists_cons_of_ne_nil hne'
    obtain ⟨rfl, rfl⟩ : c = d ∧ t = ds ++ '.' :: e :: es := List.cons.inj htext
    rw [List.forall_mem_cons] at hds hes
    refine ⟨_, _, measure?_digit (isDigit_iff.2 hds.1) _, ?_, fun _ => rfl⟩
    have htail := numberTail_fraction (fun x hx => isDigit_iff.2 (hds.2 x hx))
      (isDigit_iff.2 hes.1) (es ++ rest)
    have hes' : es.length ≤ ((es ++ rest).takeWhile Char.isDigit).length :=
      length_le_length_takeWhile (fun x hx => isDigit_iff.2 (hes.2 x hx)) rest
    rw [List.append_assoc, List.cons_append, List.cons_append, htail]
    simp only [List.length_append, List.length_cons]
    omega
  | @string body hbody =>
    cases htext
    refine ⟨_, body.length + 1, ?_, by simp, fun _ => rfl⟩
    rw [List.append_assoc, List.singleton_append]
    exact measure?_string hbody rest
  | char hc =>
    cases htext
    exact ⟨_, _, measure?_char hc rest, le_rfl, fun _ => rfl⟩
  | keyword hmem =>
    cases htext
    obtain ⟨hc, ht⟩ := wordChars_of_keyword hmem
    rw [← wordKind_of_keyword hmem]
    exact measure?_of_word hc ht rest
  | name hc ht hnot =>
    cases htext
    rw [← wordKind_of_not_keyword hnot]
    exact measure?_of_word hc ht rest
  | symbol hmem =>
    cases htext
    by_cases hcomment : c = '/' ∧ (t ++ rest).head? = some '/'
    · obtain ⟨rfl, hhead⟩ := hcomment
      obtain ⟨cs, hcs⟩ := List.head?_eq_some_iff.1 hhead
      have ht : t = [] := by
        simp only [symbols, List.mem_cons] at hmem
        simp at hmem
        exact hmem.1
      rw [hcs]
      refine ⟨_, _, measure?_comment cs, by simp [ht], by simp [ht]⟩
    · obtain ⟨kind', n, hsymbol, hn, hkind⟩ := symbol?_of_mem hmem rest
      refine ⟨_, n, by rw [measure?_symbol hmem hcomment, hsymbol]; rfl, hn, fun hlength => ?_⟩
      rw [hkind hlength]

end Segment

/-! ## Cutting a text -/

theorem Lexeme.ne_nil {kind : SegmentKind} {text : List Char} (h : Lexeme kind text) :
    text ≠ [] := by
  cases h with
  | blanks hne => exact hne
  | whole hne => exact hne
  | keyword hmem =>
    rintro rfl
    exact absurd hmem (by simp [keywords])
  | symbol hmem =>
    rintro rfl
    exact absurd hmem (by simp [symbols])
  | _ => simp

/-- A text belongs to one class at most. -/
theorem Lexeme.kind_unique {kind kind' : SegmentKind} {text : List Char} (h : Lexeme kind text)
    (h' : Lexeme kind' text) : kind = kind' := by
  obtain ⟨c, t, rfl⟩ := List.exists_cons_of_ne_nil h.ne_nil
  obtain ⟨k, n, hmeasure, hn, hkind⟩ := Segment.measure?_of_lexeme h []
  obtain ⟨k', n', hmeasure', -, hkind'⟩ := Segment.measure?_of_lexeme h' []
  obtain ⟨rfl, rfl⟩ : k = k' ∧ n = n' := by simpa using hmeasure.symm.trans hmeasure'
  have hlength : t.length = n := by
    have := (Segment.measure?_sound hmeasure).1
    rw [List.append_nil] at this
    omega
  rw [← hkind hlength, hkind' hlength]

/-- What the rule for a segment takes is the longest match. -/
theorem longest_of_measure? {c : Char} {cs : List Char} {kind : SegmentKind} {n : Nat}
    (h : Segment.measure? c cs = some (kind, n)) :
    Longest (c :: cs) ⟨kind, c :: cs.take n⟩ (cs.drop n) where
  split := by rw [List.cons_append, List.take_append_drop]
  lexeme := (Segment.measure?_sound h).2
  longest kind' lexeme hlexeme hprefix := by
    obtain ⟨d, t, rfl⟩ := List.exists_cons_of_ne_nil hlexeme.ne_nil
    obtain ⟨rfl, rest, rfl⟩ := List.cons_prefix_cons.1 hprefix
    obtain ⟨k, m, hmeasure, hm, -⟩ := Segment.measure?_of_lexeme hlexeme rest
    obtain ⟨rfl, rfl⟩ : k = kind ∧ m = n := by simpa [hmeasure] using h
    rw [List.length_cons, List.length_cons, List.length_take_of_le (Segment.measure?_sound h).1]
    exact Nat.succ_le_succ hm

/-- Where the rule takes nothing, no class matches. -/
theorem not_prefix_of_measure? {c : Char} {cs : List Char} (h : Segment.measure? c cs = none) :
    ∀ kind lexeme, Lexeme kind lexeme → ¬lexeme <+: c :: cs := by
  intro kind lexeme hlexeme hprefix
  obtain ⟨d, t, rfl⟩ := List.exists_cons_of_ne_nil hlexeme.ne_nil
  obtain ⟨rfl, rest, rfl⟩ := List.cons_prefix_cons.1 hprefix
  obtain ⟨k, m, hmeasure, -⟩ := Segment.measure?_of_lexeme hlexeme rest
  exact nomatch h.symm.trans hmeasure

theorem cuts_scan (text : List Char) : Cuts text (Segment.scan text).1 (Segment.scan text).2 := by
  fun_induction Segment.scan text with
  | case1 =>
    exact .stop fun kind lexeme hlexeme hprefix => hlexeme.ne_nil (List.prefix_nil.1 hprefix)
  | case2 c cs h => exact .stop (not_prefix_of_measure? h)
  | case3 c cs kind n h segments rest hscan ih =>
    rw [hscan] at ih
    exact .step (longest_of_measure? h) ih

theorem Longest.unique {text rest rest' : List Char} {s s' : Segment} (h : Longest text s rest)
    (h' : Longest text s' rest') : s = s' ∧ rest = rest' := by
  have hprefix : s.text <+: text := ⟨rest, h.split.symm⟩
  have hprefix' : s'.text <+: text := ⟨rest', h'.split.symm⟩
  have hle := h'.longest _ _ h.lexeme hprefix
  have hle' := h.longest _ _ h'.lexeme hprefix'
  have htext : s.text = s'.text :=
    (List.prefix_of_prefix_length_le hprefix hprefix' hle).eq_of_length (le_antisymm hle hle')
  have hkind : s.kind = s'.kind := h.lexeme.kind_unique (htext ▸ h'.lexeme)
  refine ⟨?_, ?_⟩
  · cases s
    cases s'
    simp_all
  · have hsplit := h.split.symm.trans h'.split
    rwa [htext, List.append_cancel_left_eq] at hsplit

theorem Cuts.unique {text left left' : List Char} {segments segments' : List Segment}
    (h : Cuts text segments left) (h' : Cuts text segments' left') :
    segments = segments' ∧ left = left' := by
  induction h generalizing segments' with
  | stop hnone =>
    cases h' with
    | stop => exact ⟨rfl, rfl⟩
    | step hlongest => exact absurd ⟨_, hlongest.split.symm⟩ (hnone _ _ hlongest.lexeme)
  | step hlongest _ ih =>
    cases h' with
    | stop hnone => exact absurd ⟨_, hlongest.split.symm⟩ (hnone _ _ hlongest.lexeme)
    | step hlongest' h' =>
      obtain ⟨rfl, rfl⟩ := hlongest.unique hlongest'
      obtain ⟨rfl, rfl⟩ := ih h'
      exact ⟨rfl, rfl⟩

/-- **Scanning is the only way to cut a text into longest matches.** -/
theorem cuts_iff_scan {text left : List Char} {segments : List Segment} :
    Cuts text segments left ↔ Segment.scan text = (segments, left) := by
  constructor
  · intro h
    obtain ⟨hsegments, hleft⟩ := (cuts_scan text).unique h
    exact Prod.ext hsegments hleft
  · intro h
    have hcuts := cuts_scan text
    rwa [h] at hcuts

/-! ## Tokens are members of classes -/

/-- A token whose text belongs to the class of its kind. -/
def Token.Lexical (t : Token) : Prop :=
  Lexeme (.token t.kind) t.lexeme.toList

theorem Cuts.lexeme {text left : List Char} {segments : List Segment}
    (h : Cuts text segments left) : ∀ s ∈ segments, Lexeme s.kind s.text := by
  induction h with
  | stop => simp
  | step hlongest _ ih => exact List.forall_mem_cons.2 ⟨hlongest.lexeme, ih⟩

/-- A token is a segment. -/
theorem Token.exists_of_mem_locate {line : Int} {segments : List Segment} {t : Token}
    (h : t ∈ Token.locate line segments) :
    ∃ s ∈ segments, s.kind = .token t.kind ∧ t.lexeme = String.ofList s.text := by
  induction segments generalizing line with
  | nil => exact absurd h List.not_mem_nil
  | cons s segments ih =>
    rw [Token.locate] at h
    have hlater (h : t ∈ Token.locate (line + newlines s.text) segments) :
        ∃ s' ∈ s :: segments, s'.kind = .token t.kind ∧ t.lexeme = String.ofList s'.text := by
      obtain ⟨s', hs', hkind⟩ := ih h
      exact ⟨s', List.mem_cons_of_mem s hs', hkind⟩
    split at h
    · rename_i kind hkind
      rcases List.mem_cons.1 h with rfl | h
      · exact ⟨s, List.mem_cons_self, hkind, rfl⟩
      · exact hlater h
    · exact hlater h

theorem tokens_of_tokenize {source : List Char} {tokens : TokenStream}
    (h : tokenize source = .ok tokens) :
    tokens.tokens = Token.locate 1 (Segment.scan source).1 := by
  rw [tokenize] at h
  cases hrest : (Segment.scan source).2 with
  | nil =>
    simp only [hrest, Except.ok.injEq] at h
    rw [← h]
  | cons c cs => simp [hrest] at h

/-- **The tokens of a text belong to their classes.** -/
theorem lexical_of_tokenize {source : List Char} {tokens : TokenStream}
    (h : tokenize source = .ok tokens) : ∀ t ∈ tokens.tokens, t.Lexical := by
  intro t ht
  rw [tokens_of_tokenize h] at ht
  obtain ⟨s, hs, hkind, htext⟩ := Token.exists_of_mem_locate ht
  have hlexeme := (cuts_scan source).lexeme s hs
  rwa [hkind, ← String.toList_ofList (l := s.text), ← htext] at hlexeme

/-! ## Tokens and their lines -/

/-- The token of a segment that stands after some text, unless the segment only separates tokens. -/
def Segment.token? (before : List Char) (s : Segment) : Option Token :=
  match s.kind with
  | .token kind => some ⟨kind, String.ofList s.text, 1 + newlines before⟩
  | _ => none

/-- The tokens among some segments, each with the text of all segments before it. -/
def Segment.tokens (segments : List Segment) : List Token :=
  (segments.mapIdx fun i s => s.token? ((segments.take i).flatMap Segment.text)).reduceOption

theorem newlines_append (cs ds : List Char) : newlines (cs ++ ds) = newlines cs + newlines ds := by
  simp [newlines]

theorem Token.locate_eq (before : List Char) (segments : List Segment) :
    Token.locate (1 + newlines before) segments = (segments.mapIdx fun i s =>
      s.token? (before ++ (segments.take i).flatMap Segment.text)).reduceOption := by
  induction segments generalizing before with
  | nil => rfl
  | cons s segments ih =>
    have hlater := ih (before ++ s.text)
    rw [newlines_append, ← add_assoc] at hlater
    rw [Token.locate, List.mapIdx_cons, hlater]
    simp only [List.take_zero, List.flatMap_nil, List.append_nil, List.take_succ_cons,
      List.flatMap_cons, List.append_assoc]
    cases hkind : s.kind <;> simp [Segment.token?, hkind]

theorem Token.locate_one (segments : List Segment) :
    Token.locate 1 segments = Segment.tokens segments :=
  Token.locate_eq [] segments

theorem newlines_scan (source : List Char) :
    newlines ((Segment.scan source).1.flatMap Segment.text) + newlines (Segment.scan source).2 =
      newlines source := by
  rw [← newlines_append, Segment.scan_append]

/-- Scanning to the end gives the tokens. -/
theorem tokenize_of_left_nil {source : List Char} (h : (Segment.scan source).2 = []) :
    tokenize source = .ok ⟨Segment.tokens (Segment.scan source).1, 1 + newlines source⟩ := by
  have hline := newlines_scan source
  rw [h, newlines, newlines, List.count_nil, Nat.cast_zero, add_zero] at hline
  simp only [tokenize, h, Token.locate_one, newlines, hline]

/-- Scanning that stops before the end gives an error. -/
theorem tokenize_of_left_cons {source : List Char} {c : Char} {cs : List Char}
    (h : (Segment.scan source).2 = c :: cs) :
    tokenize source =
      .error (ScanError.of (1 + newlines ((Segment.scan source).1.flatMap Segment.text)) c cs) := by
  simp only [tokenize, h]

/-- **The tokens of a text.**  There is one way to cut a text into longest matches, and its pieces
make up the text.  If nothing is left over, the tokens are the pieces that do not only separate
others, each on the line that the line feeds before it give, and then the end.  Otherwise the error
is about the first character left over: a string that is not closed is reported on the last line of
the text, and all else on the line of that character. -/
theorem tokenize_eq_match (source : List Char) : ∃ segments left,
    (∀ ss rest, Cuts source ss rest ↔ ss = segments ∧ rest = left) ∧
    segments.flatMap Segment.text ++ left = source ∧
    (tokenize source).map TokenStream.toList =
      let line := 1 + newlines (segments.flatMap Segment.text)
      match left with
      | [] => .ok (Segment.tokens segments ++ [⟨.endOfText, "", 1 + newlines source⟩])
      | '"' :: _ => .error ⟨.unterminatedString, 1 + newlines source⟩
      | ['\''] => .error ⟨.emptyChar, line⟩
      | '\'' :: '\'' :: _ => .error ⟨.emptyChar, line⟩
      | '\'' :: _ => .error ⟨.longChar, line⟩
      | c :: _ => .error ⟨.unexpected c, line⟩ := by
  refine ⟨(Segment.scan source).1, (Segment.scan source).2, fun ss rest => ?_,
    Segment.scan_append source, ?_⟩
  · rw [cuts_iff_scan, Prod.ext_iff, eq_comm, and_comm, eq_comm, and_comm]
  have hline := newlines_scan source
  dsimp only
  split
  · next hleft =>
    rw [tokenize_of_left_nil hleft]
    rfl
  · next cs hleft =>
    have hquote : newlines ('"' :: cs) = newlines cs := by simp [newlines]
    rw [hleft, hquote] at hline
    rw [tokenize_of_left_cons hleft, ← hline, ← add_assoc]
    rfl
  · next hleft =>
    rw [tokenize_of_left_cons hleft]
    rfl
  · next cs hleft =>
    rw [tokenize_of_left_cons hleft]
    rfl
  · next cs hempty hquote hleft =>
    obtain ⟨x, rest, rfl⟩ := List.exists_cons_of_ne_nil hempty
    have hx : x ≠ '\'' := fun h => hquote rest (h ▸ rfl)
    rw [tokenize_of_left_cons hleft]
    simp [ScanError.of, hx, Except.map]
  · next c cs hdouble _ _ hsingle hleft =>
    rw [tokenize_of_left_cons hleft, ScanError.of.eq_def, if_neg hdouble, if_neg hsingle]
    rfl

end Scriptlet
