import MiniLox.Token.Lexeme

/-!
The lexical grammar, independent of how a text is read.

    NUMBER     = digit+ ("." digit+)?
    STRING     = '"' (any character but '"')* '"'
    IDENTIFIER = letter (letter | digit)*
    comment    = "//" (any character but the newline)*

`Spells` says which texts an item can have, and `CarriesOn` what behind an
item would have made it longer. An item that nothing carries on is the
longest at its place, and it is the one that is taken there: so at most one
item can be taken at the front of a text, and if any item fits there one is
taken.
-/

namespace MiniLox

/-- The kinds of identifiers and keywords. -/
def Kind.isWord (k : Kind) : Bool := k == identifier || keywords.any fun entry => entry.2 == k

namespace Lexeme

/-- The symbols and the kinds of the tokens that they are. -/
def symbols : List (List Char × Kind) :=
  [(['('], .leftParen), ([')'], .rightParen), (['\x7b'], .leftBrace), (['\x7d'], .rightBrace),
    ([','], .comma), (['.'], .dot), (['-'], .minus), (['+'], .plus), ([';'], .semicolon),
    (['/'], .slash), (['*'], .star), (['!'], .bang), (['!', '='], .bangEqual),
    (['='], .equal), (['=', '='], .equalEqual), (['>'], .greater), (['>', '='], .greaterEqual),
    (['<'], .less), (['<', '='], .lessEqual)]

/-- The texts of the items. -/
inductive Spells : Lexeme → List Char → Prop where
  | symbol {text : List Char} {kind : Kind} (h : (text, kind) ∈ symbols) :
      Spells (.token kind none) text
  | keyword {word : String} {kind : Kind} (h : (word, kind) ∈ Kind.keywords) :
      Spells (.token kind none) word.toList
  | identifier {c : Char} {cs : List Char} (hc : isLetter c = true)
      (hcs : ∀ d ∈ cs, isWordPart d = true)
      (hkeyword : ∀ kind, (String.ofList (c :: cs), kind) ∉ Kind.keywords) :
      Spells (.token .identifier none) (c :: cs)
  | whole {digits : List Char} (hne : digits ≠ []) (h : ∀ c ∈ digits, isDigit c = true) :
      Spells (numeral digits []) digits
  | fractional {whole fraction : List Char} (hwhole : whole ≠ []) (hfraction : fraction ≠ [])
      (h : ∀ c ∈ whole ++ fraction, isDigit c = true) :
      Spells (numeral whole fraction) (whole ++ '.' :: fraction)
  | string {body : List Char} (h : '"' ∉ body) :
      Spells (.token .string (some (.string (String.ofList body)))) ('"' :: (body ++ ['"']))
  | blank {c : Char} (h : c ∈ [' ', '\t', '\r', '\n']) : Spells .blank [c]
  | comment {body : List Char} (h : '\n' ∉ body) : Spells .comment ('/' :: '/' :: body)

/-- What stands right behind an item belongs to a longer one. -/
inductive CarriesOn : Lexeme → (text rest : List Char) → Prop where
  | word {kind : Kind} {text : List Char} {c : Char} {rest : List Char}
      (hkind : kind.isWord = true) (hc : isWordPart c = true) :
      CarriesOn (.token kind none) text (c :: rest)
  | digit {value : Value} {text : List Char} {c : Char} {rest : List Char}
      (hc : isDigit c = true) : CarriesOn (.token .number (some value)) text (c :: rest)
  | point {value : Value} {text : List Char} {c : Char} {rest : List Char}
      (htext : '.' ∉ text) (hc : isDigit c = true) :
      CarriesOn (.token .number (some value)) text ('.' :: c :: rest)
  | equal {kind : Kind} {text rest : List Char}
      (hkind : kind ∈ [Kind.bang, .equal, .greater, .less]) :
      CarriesOn (.token kind none) text ('=' :: rest)
  | slash {text rest : List Char} : CarriesOn (.token .slash none) text ('/' :: rest)
  | comment {text : List Char} {c : Char} {rest : List Char} (hc : c ≠ '\n') :
      CarriesOn .comment text (c :: rest)

/-- No item at the front of the text is longer than the one that covers its
first part. -/
def Longest (text rest : List Char) : Prop :=
  ∀ (lexeme : Lexeme) (u v : List Char), lexeme.Spells u → u ++ v = text ++ rest →
    u.length ≤ text.length

/-- An item is taken off the front of a text, and the rest is left. -/
inductive Takes : Lexeme → (covered rest : List Char) → Prop where
  | intro {c : Char} {cs : List Char} {item : Item (c :: cs)} (h : next c cs = .ok item) :
      Takes item.lexeme item.covered item.rest

/-! ### The characters of an item -/

section Characters

variable {accepts : Char → Bool} {us vs : List Char}

theorem takeWhile_append_of_head? (hus : ∀ c ∈ us, accepts c = true)
    (hvs : ∀ c ∈ vs.head?, accepts c = false) : (us ++ vs).takeWhile accepts = us := by
  rw [List.takeWhile_append_of_pos hus]
  cases vs with
  | nil => simp
  | cons c vs => simp [hvs c rfl]

theorem dropWhile_append_of_head? (hus : ∀ c ∈ us, accepts c = true)
    (hvs : ∀ c ∈ vs.head?, accepts c = false) : (us ++ vs).dropWhile accepts = vs := by
  rw [List.dropWhile_append_of_pos hus]
  cases vs with
  | nil => rfl
  | cons c vs => simp [hvs c rfl]

/-- Texts that go up to the first character that fails the test are cut at the same place. -/
theorem append_inj_of_head? {us' vs' : List Char} (hus : ∀ c ∈ us, accepts c = true)
    (hus' : ∀ c ∈ us', accepts c = true) (hvs : ∀ c ∈ vs.head?, accepts c = false)
    (hvs' : ∀ c ∈ vs'.head?, accepts c = false) (h : us ++ vs = us' ++ vs') :
    us = us' ∧ vs = vs' := by
  constructor
  · rw [← takeWhile_append_of_head? hus hvs, h, takeWhile_append_of_head? hus' hvs']
  · rw [← dropWhile_append_of_head? hus hvs, h, dropWhile_append_of_head? hus' hvs']

/-- Texts in front of a character that is not in them are cut at the same place. -/
theorem append_cons_inj {us' vs' : List Char} {c : Char} (hus : c ∉ us) (hus' : c ∉ us')
    (h : us ++ c :: vs = us' ++ c :: vs') : us = us' ∧ vs = vs' := by
  have hpasses {ds : List Char} (hds : c ∉ ds) : ∀ d ∈ ds, (d != c) = true :=
    fun d hd => bne_iff_ne.mpr (ne_of_mem_of_not_mem hd hds)
  obtain ⟨hfront, hrest⟩ :=
    append_inj_of_head? (hpasses hus) (hpasses hus') (by simp) (by simp) h
  exact ⟨hfront, (List.cons.inj hrest).2⟩

theorem eq_false_of_mem_head? (h : ∀ c rest, vs = c :: rest → accepts c ≠ true) :
    ∀ c ∈ vs.head?, accepts c = false := by
  intro c hc
  obtain ⟨rest, rfl⟩ := List.head?_eq_some_iff.mp hc
  exact Bool.eq_false_iff.mpr (h c rest rfl)

theorem not_of_dropWhile_eq_cons {c : Char} (h : us.dropWhile accepts = c :: vs) :
    accepts c = false := by
  have hhead := List.head?_dropWhile_not accepts us
  rwa [h] at hhead

theorem of_mem_takeWhile {c : Char} (h : c ∈ us.takeWhile accepts) : accepts c = true :=
  List.all_eq_true.mp List.all_takeWhile c h

end Characters

end Lexeme

/-! ### Words and symbols -/

theorem Kind.ofWord_of_mem {word : String} {kind : Kind} (h : (word, kind) ∈ Kind.keywords) :
    Kind.ofWord word = kind := by
  have hall : ∀ entry ∈ Kind.keywords, Kind.ofWord entry.1 = entry.2 := by decide
  exact hall _ h

theorem Kind.ofWord_of_not_mem {word : String} (h : ∀ kind, (word, kind) ∉ Kind.keywords) :
    Kind.ofWord word = .identifier := by
  have hnone : Kind.keywords.lookup word = none := by
    rw [List.lookup_eq_none_iff]
    rintro ⟨other, kind⟩ hentry
    rw [bne_iff_ne]
    rintro rfl
    exact h kind hentry
  rw [Kind.ofWord, hnone, Option.getD_none]

theorem Kind.mem_keywords_or_ofWord_eq (word : String) :
    (word, Kind.ofWord word) ∈ Kind.keywords ∨
      Kind.ofWord word = .identifier ∧ ∀ kind, (word, kind) ∉ Kind.keywords := by
  by_cases h : ∃ kind, (word, kind) ∈ Kind.keywords
  · obtain ⟨kind, hkind⟩ := h
    left
    rwa [Kind.ofWord_of_mem hkind]
  · right
    have hnot : ∀ kind, (word, kind) ∉ Kind.keywords := fun kind hkind => h ⟨kind, hkind⟩
    exact ⟨Kind.ofWord_of_not_mem hnot, hnot⟩

namespace Lexeme

/-- A keyword is a word: it begins with a letter and goes on as words do. -/
theorem exists_toList_eq_of_mem_keywords {word : String} {kind : Kind}
    (h : (word, kind) ∈ Kind.keywords) :
    ∃ c cs, word.toList = c :: cs ∧ isLetter c = true ∧ ∀ d ∈ cs, isWordPart d = true := by
  have hall : ∀ entry ∈ Kind.keywords,
      entry.1.toList.head?.any isLetter = true ∧ entry.1.toList.tail.all isWordPart = true := by
    decide
  obtain ⟨hhead, htail⟩ := hall _ h
  cases hword : word.toList with
  | nil => simp [hword] at hhead
  | cons c cs =>
      simp only [hword, List.head?_cons, Option.any_some, List.tail_cons, List.all_eq_true]
        at hhead htail
      exact ⟨c, cs, rfl, hhead, htail⟩

theorem spells_word {c : Char} {cs : List Char} (hc : isLetter c = true)
    (hcs : ∀ d ∈ cs, isWordPart d = true) :
    Spells (.token (.ofWord (String.ofList (c :: cs))) none) (c :: cs) := by
  rcases Kind.mem_keywords_or_ofWord_eq (String.ofList (c :: cs)) with h | ⟨h, hkeyword⟩
  · have hspells := Spells.keyword h
    rwa [String.toList_ofList] at hspells
  · rw [h]
    exact .identifier hc hcs hkeyword

/-- A word is a keyword or a name. -/
theorem spells_ofWord (word : String) (hhead : word.toList.head?.any isLetter = true)
    (htail : word.toList.tail.all isWordPart = true) :
    Spells (.token (.ofWord word) none) word.toList := by
  cases hword : word.toList with
  | nil => simp [hword] at hhead
  | cons c cs =>
      simp only [hword, List.head?_cons, Option.any_some, List.tail_cons, List.all_eq_true]
        at hhead htail
      have hspells := spells_word hhead htail
      rwa [← hword, String.ofList_toList, hword] at hspells

theorem exists_word_of_spells {kind : Kind} {text : List Char}
    (h : Spells (.token kind none) text) (hkind : kind.isWord = true) :
    ∃ c cs, text = c :: cs ∧ isLetter c = true ∧ (∀ d ∈ cs, isWordPart d = true) ∧
      kind = .ofWord (String.ofList text) := by
  cases h with
  | symbol h =>
      have hall : ∀ entry ∈ symbols, entry.2.isWord = false := by decide
      have := hall _ h
      rw [hkind] at this
      contradiction
  | keyword h =>
      obtain ⟨c, cs, hword, hc, hcs⟩ := exists_toList_eq_of_mem_keywords h
      refine ⟨c, cs, hword, hc, hcs, ?_⟩
      rw [String.ofList_toList, Kind.ofWord_of_mem h]
  | identifier hc hcs hkeyword =>
      exact ⟨_, _, rfl, hc, hcs, (Kind.ofWord_of_not_mem hkeyword).symm⟩

theorem mem_symbols_of_symbol? {c : Char} {kind : Kind} (h : symbol? c = some kind) :
    ([c], kind) ∈ symbols := by
  unfold symbol? at h
  split at h
  case h_11 => contradiction
  all_goals
    cases h
    decide

theorem mem_symbols_of_pair? {c : Char} {alone paired : Kind}
    (h : pair? c = some (alone, paired)) :
    ([c], alone) ∈ symbols ∧ ([c, '='], paired) ∈ symbols := by
  unfold pair? at h
  split at h
  case h_5 => contradiction
  all_goals
    cases h
    decide

/-! ### What is taken is an item -/

theorem next_of_symbol? {c : Char} {kind : Kind} (h : symbol? c = some kind) (cs : List Char) :
    next c cs = .ok (one (.token kind none) c cs) := by
  unfold symbol? at h
  split at h
  case h_11 => contradiction
  all_goals
    cases h
    rfl

theorem next_of_pair? {c : Char} {alone paired : Kind} (h : pair? c = some (alone, paired))
    (cs : List Char) :
    next c cs = .ok (oneOrTwo (.token alone none) (.token paired none) '=' c cs) := by
  unfold pair? at h
  split at h
  case h_5 => contradiction
  all_goals
    cases h
    rfl

theorem spells_oneOrTwo {c : Char} {alone paired : Kind} (h : pair? c = some (alone, paired))
    (cs : List Char) :
    Spells (oneOrTwo (.token alone none) (.token paired none) '=' c cs).lexeme
      (oneOrTwo (.token alone none) (.token paired none) '=' c cs).covered := by
  obtain ⟨halone, hpaired⟩ := mem_symbols_of_pair? h
  cases cs with
  | nil => exact .symbol halone
  | cons d cs =>
      rw [oneOrTwo]
      split
      · next hd =>
        rw [hd]
        exact .symbol hpaired
      · exact .symbol halone

/-- A point and a digit behind the first digits belong to the number. -/
theorem number_of_point (c : Char) {d : Char} {cs rest : List Char}
    (hcs : cs.dropWhile isDigit = '.' :: d :: rest) (hd : isDigit d = true) :
    (number c cs).lexeme = numeral (c :: cs.takeWhile isDigit) (d :: rest.takeWhile isDigit) ∧
      (number c cs).covered = c :: cs.takeWhile isDigit ++ '.' :: d :: rest.takeWhile isDigit ∧
      (number c cs).rest = rest.dropWhile isDigit := by
  unfold number
  split
  · next h =>
    cases hcs.symm.trans h
    simp only [hd, if_true, and_self]
  · next h => exact absurd hcs (h d rest)

theorem number_of_not_point {c : Char} {cs : List Char}
    (hcs : ∀ d rest, cs.dropWhile isDigit = '.' :: d :: rest → isDigit d = false) :
    number c cs = whilst isDigit (numeral · []) c cs := by
  unfold number
  simp only
  split
  · next d rest h => simp [hcs d rest h]
  · rfl

theorem spells_number {c : Char} (hc : isDigit c = true) (cs : List Char) :
    Spells (number c cs).lexeme (number c cs).covered := by
  have hwhole : ∀ d ∈ c :: cs.takeWhile isDigit, isDigit d = true := by
    intro d hd
    rcases List.mem_cons.mp hd with rfl | hd
    · exact hc
    · exact of_mem_takeWhile hd
  by_cases h : ∃ d rest, cs.dropWhile isDigit = '.' :: d :: rest ∧ isDigit d = true
  · obtain ⟨d, rest, hcs, hd⟩ := h
    obtain ⟨hlexeme, hcovered, -⟩ := number_of_point c hcs hd
    rw [hlexeme, hcovered]
    refine .fractional (List.cons_ne_nil c _) (List.cons_ne_nil d _) fun e he => ?_
    rcases List.mem_append.mp he with he | he
    · exact hwhole e he
    · rcases List.mem_cons.mp he with rfl | he
      · exact hd
      · exact of_mem_takeWhile he
  · rw [number_of_not_point fun d rest hcs => Bool.eq_false_iff.mpr fun hd => h ⟨d, rest, hcs, hd⟩]
    exact .whole (List.cons_ne_nil c _) hwhole

theorem spells_quoted {cs : List Char} {item : Item ('"' :: cs)} (h : quoted cs = .ok item) :
    Spells item.lexeme item.covered := by
  unfold quoted at h
  split at h
  · contradiction
  · next quote rest hrest =>
    cases h
    obtain rfl : quote = '"' := by simpa using not_of_dropWhile_eq_cons hrest
    refine .string fun hmem => ?_
    simpa using of_mem_takeWhile hmem

theorem spells_slash (cs : List Char) : Spells (slash cs).lexeme (slash cs).covered := by
  have hsymbol : (['/'], Kind.slash) ∈ symbols := by decide
  unfold slash
  split
  · refine .comment fun hmem => ?_
    simpa using of_mem_takeWhile hmem
  · exact .symbol hsymbol

theorem spells_of_next {c : Char} {cs : List Char} {item : Item (c :: cs)}
    (h : next c cs = .ok item) : Spells item.lexeme item.covered := by
  unfold next at h
  split at h
  · exact spells_quoted h
  · cases h
    exact spells_slash _
  · split at h
    · next hblank =>
      cases h
      refine .blank ?_
      simpa [isBlank, or_comm, or_left_comm, or_assoc] using hblank
    · split at h
      · next hdigit =>
        cases h
        exact spells_number hdigit _
      · split at h
        · next hletter =>
          cases h
          exact spells_word hletter fun d hd => of_mem_takeWhile hd
        · split at h
          · next hsymbol =>
            cases h
            exact .symbol (mem_symbols_of_symbol? hsymbol)
          · next hpair =>
            cases h
            exact spells_oneOrTwo hpair _
          · contradiction

theorem Takes.spells {lexeme : Lexeme} {u v : List Char} (h : Takes lexeme u v) :
    lexeme.Spells u := by
  cases h with
  | intro h => exact spells_of_next h

/-- At most one item is taken off the front of a text. -/
theorem Takes.eq {lexeme lexeme' : Lexeme} {u v u' v' : List Char} (h : Takes lexeme u v)
    (h' : Takes lexeme' u' v') (happ : u ++ v = u' ++ v') :
    lexeme = lexeme' ∧ u = u' ∧ v = v' := by
  cases h with
  | @intro c cs item hnext =>
      cases h' with
      | @intro c' cs' item' hnext' =>
          rw [item.append_eq, item'.append_eq] at happ
          cases happ
          cases hnext.symm.trans hnext'
          exact ⟨rfl, rfl, rfl⟩

/-! ### An item that nothing carries on is taken -/

theorem isLetter_eq_false_of_isDigit {c : Char} (h : isDigit c = true) : isLetter c = false := by
  simp only [isDigit, decide_eq_true_eq, Char.le_def, UInt32.le_iff_toNat_le] at h
  simp only [isLetter, Bool.or_eq_false_iff, decide_eq_false_iff_not, beq_eq_false_iff_ne, ne_eq,
    Char.le_def, UInt32.le_iff_toNat_le]
  refine ⟨⟨?_, ?_⟩, ?_⟩
  · simp at h ⊢
    omega
  · simp at h ⊢
    omega
  · rintro rfl
    simp at h

theorem isBlank_of {c : Char} (h : isBlank c = true) : isDigit c = false ∧ isLetter c = false := by
  simp only [isBlank, Bool.or_eq_true, beq_iff_eq] at h
  rcases h with ((rfl | rfl) | rfl) | rfl <;> decide

theorem next_of_isBlank {c : Char} (h : isBlank c = true) (cs : List Char) :
    next c cs = .ok (one .blank c cs) := by
  unfold next
  split
  · contradiction
  · contradiction
  · rw [if_pos h]

theorem next_of_isDigit {c : Char} (h : isDigit c = true) (cs : List Char) :
    next c cs = .ok (number c cs) := by
  have hblank : ¬isBlank c = true := fun hb => by simp [isBlank_of hb] at h
  unfold next
  split
  · contradiction
  · contradiction
  · rw [if_neg hblank, if_pos h]

theorem next_of_isLetter {c : Char} (h : isLetter c = true) (cs : List Char) :
    next c cs = .ok (word c cs) := by
  have hblank : ¬isBlank c = true := fun hb => by simp [isBlank_of hb] at h
  have hdigit : ¬isDigit c = true := fun hd => by simp [isLetter_eq_false_of_isDigit hd] at h
  unfold next
  split
  · contradiction
  · contradiction
  · rw [if_neg hblank, if_neg hdigit, if_pos h]

theorem mem_symbols_cases {text : List Char} {kind : Kind} (h : (text, kind) ∈ symbols) :
    (∃ c, text = [c] ∧ symbol? c = some kind) ∨
      (text = ['/'] ∧ kind = .slash) ∨
      (∃ c paired, text = [c] ∧ pair? c = some (kind, paired)) ∨
      ∃ c alone, text = [c, '='] ∧ pair? c = some (alone, kind) := by
  simp only [symbols, List.mem_cons, Prod.mk.injEq, List.not_mem_nil, or_false] at h
  rcases h with ⟨rfl, rfl⟩ | ⟨rfl, rfl⟩ | ⟨rfl, rfl⟩ | ⟨rfl, rfl⟩ | ⟨rfl, rfl⟩ | ⟨rfl, rfl⟩ |
    ⟨rfl, rfl⟩ | ⟨rfl, rfl⟩ | ⟨rfl, rfl⟩ | ⟨rfl, rfl⟩ | ⟨rfl, rfl⟩ | ⟨rfl, rfl⟩ | ⟨rfl, rfl⟩ |
    ⟨rfl, rfl⟩ | ⟨rfl, rfl⟩ | ⟨rfl, rfl⟩ | ⟨rfl, rfl⟩ | ⟨rfl, rfl⟩ | ⟨rfl, rfl⟩
  all_goals simp [symbol?, pair?]

theorem mem_of_pair? {c : Char} {alone paired : Kind} (h : pair? c = some (alone, paired)) :
    alone ∈ [Kind.bang, .equal, .greater, .less] := by
  unfold pair? at h
  split at h
  case h_5 => contradiction
  all_goals
    cases h
    decide

section Taken

variable {lexeme : Lexeme} {text v : List Char}

theorem takes_symbol {kind : Kind} (h : (text, kind) ∈ symbols)
    (hends : ¬CarriesOn (.token kind none) text v) : Takes (.token kind none) text v := by
  rcases mem_symbols_cases h with ⟨c, rfl, hc⟩ | ⟨rfl, rfl⟩ | ⟨c, paired, rfl, hc⟩ |
    ⟨c, alone, rfl, hc⟩
  · exact .intro (next_of_symbol? hc v)
  · have htakes : Takes (slash v).lexeme (slash v).covered (slash v).rest := .intro rfl
    cases v with
    | nil => exact htakes
    | cons d v =>
        have hd : d ≠ '/' := by
          rintro rfl
          exact hends .slash
        rw [slash] at htakes
        · exact htakes
        · simpa using hd
  · have htakes := Takes.intro (next_of_pair? hc v)
    cases v with
    | nil => exact htakes
    | cons d v =>
        have hd : d ≠ '=' := by
          rintro rfl
          exact hends (.equal (mem_of_pair? hc))
        simp only [oneOrTwo, if_neg hd] at htakes
        exact htakes
  · exact .intro (next_of_pair? hc ('=' :: v))

theorem takes_word {c : Char} {cs : List Char} (hc : isLetter c = true)
    (hcs : ∀ d ∈ cs, isWordPart d = true) (hv : ∀ d ∈ v.head?, isWordPart d = false) :
    Takes (.token (.ofWord (String.ofList (c :: cs))) none) (c :: cs) v := by
  have htakes := Takes.intro (next_of_isLetter hc (cs ++ v))
  simp only [word, whilst, takeWhile_append_of_head? hcs hv, dropWhile_append_of_head? hcs hv]
    at htakes
  exact htakes

theorem takes_whole (hne : text ≠ []) (h : ∀ c ∈ text, isDigit c = true)
    (hv : ∀ d ∈ v.head?, isDigit d = false)
    (hpoint : ∀ d rest, v = '.' :: d :: rest → isDigit d = false) :
    Takes (numeral text []) text v := by
  cases text with
  | nil => contradiction
  | cons c cs =>
      have hcs : ∀ d ∈ cs, isDigit d = true := fun d hd => h d (List.mem_cons_of_mem c hd)
      have htakes := Takes.intro (next_of_isDigit (h c (List.mem_cons_self ..)) (cs ++ v))
      rw [number_of_not_point] at htakes
      · simp only [whilst, takeWhile_append_of_head? hcs hv, dropWhile_append_of_head? hcs hv]
          at htakes
        exact htakes
      · rw [dropWhile_append_of_head? hcs hv]
        exact hpoint

theorem takes_fractional {whole fraction : List Char} (hwhole : whole ≠ [])
    (hfraction : fraction ≠ []) (h : ∀ c ∈ whole ++ fraction, isDigit c = true)
    (hv : ∀ d ∈ v.head?, isDigit d = false) :
    Takes (numeral whole fraction) (whole ++ '.' :: fraction) v := by
  cases whole with
  | nil => contradiction
  | cons c cs =>
      cases fraction with
      | nil => contradiction
      | cons d ds =>
          have hc : isDigit c = true := h c (by simp)
          have hd : isDigit d = true := h d (by simp)
          have hcs : ∀ e ∈ cs, isDigit e = true := fun e he => h e (by simp [he])
          have hds : ∀ e ∈ ds, isDigit e = true := fun e he => h e (by simp [he])
          have hpoint : ∀ e ∈ ('.' :: d :: (ds ++ v)).head?, isDigit e = false := by
            intro e he
            obtain rfl : '.' = e := by simpa using he
            decide
          have hdrop := dropWhile_append_of_head? hcs hpoint
          obtain ⟨hlexeme, hcovered, hrest⟩ := number_of_point c hdrop hd
          have htakes := Takes.intro (next_of_isDigit hc (cs ++ '.' :: d :: (ds ++ v)))
          rw [hlexeme, hcovered, hrest, takeWhile_append_of_head? hcs hpoint,
            takeWhile_append_of_head? hds hv, dropWhile_append_of_head? hds hv] at htakes
          exact htakes

theorem takes_string {body : List Char} (h : '"' ∉ body) :
    Takes (.token .string (some (.string (String.ofList body)))) ('"' :: (body ++ ['"'])) v := by
  have hbody : ∀ c ∈ body, decide (c ≠ '"') = true := by
    intro c hc
    rw [decide_eq_true_eq]
    rintro rfl
    exact h hc
  have hquote : ∀ c ∈ ('"' :: v).head?, decide (c ≠ '"') = false := by simp
  have htake := takeWhile_append_of_head? hbody hquote
  have hdrop := dropWhile_append_of_head? hbody hquote
  have hnext : ∃ item, quoted (body ++ '"' :: v) = .ok item ∧
      item.lexeme = .token .string (some (.string (String.ofList body))) ∧
        item.covered = '"' :: (body ++ ['"']) ∧ item.rest = v := by
    unfold quoted
    split
    · next hnil =>
      rw [hdrop] at hnil
      contradiction
    · next quote rest hcons =>
      cases hdrop.symm.trans hcons
      exact ⟨_, rfl, by simp only [htake], by simp only [htake, List.cons_append], rfl⟩
  obtain ⟨item, hitem, hlexeme, hcovered, hrest⟩ := hnext
  have htakes : Takes item.lexeme item.covered item.rest := .intro hitem
  rw [hlexeme, hcovered, hrest] at htakes
  exact htakes

theorem takes_comment {body : List Char} (h : '\n' ∉ body) (hv : ∀ c ∈ v.head?, c = '\n') :
    Takes .comment ('/' :: '/' :: body) v := by
  have hbody : ∀ c ∈ body, decide (c ≠ '\n') = true := by
    intro c hc
    rw [decide_eq_true_eq]
    rintro rfl
    exact h hc
  have hnewline : ∀ c ∈ v.head?, decide (c ≠ '\n') = false := by
    intro c hc
    simp [hv c hc]
  have htakes : Takes (slash ('/' :: (body ++ v))).lexeme (slash ('/' :: (body ++ v))).covered
      (slash ('/' :: (body ++ v))).rest :=
    .intro rfl
  simp only [slash, takeWhile_append_of_head? hbody hnewline,
    dropWhile_append_of_head? hbody hnewline] at htakes
  exact htakes

end Taken

/-- An item that nothing carries on is taken. -/
theorem Spells.takes {lexeme : Lexeme} {u v : List Char} (h : lexeme.Spells u)
    (hends : ¬CarriesOn lexeme u v) : Takes lexeme u v := by
  cases h with
  | symbol h => exact takes_symbol h hends
  | @keyword word kind h =>
      obtain ⟨c, cs, hword, hc, hcs⟩ := exists_toList_eq_of_mem_keywords h
      have hkind : kind.isWord = true := by
        simp only [Kind.isWord, Bool.or_eq_true, List.any_eq_true]
        exact .inr ⟨_, h, beq_self_eq_true kind⟩
      have hv : ∀ d ∈ v.head?, isWordPart d = false := by
        refine eq_false_of_mem_head? ?_
        rintro d rest rfl hd
        exact hends (.word hkind hd)
      have htakes := takes_word hc hcs hv
      rw [← hword, String.ofList_toList, Kind.ofWord_of_mem h] at htakes
      exact htakes
  | identifier hc hcs hkeyword =>
      have hv : ∀ d ∈ v.head?, isWordPart d = false := by
        refine eq_false_of_mem_head? ?_
        rintro d rest rfl hd
        exact hends (.word rfl hd)
      have htakes := takes_word hc hcs hv
      rw [Kind.ofWord_of_not_mem hkeyword] at htakes
      exact htakes
  | whole hne h =>
      refine takes_whole hne h (eq_false_of_mem_head? ?_) ?_
      · rintro d rest rfl hd
        exact hends (.digit hd)
      · rintro d rest rfl
        have hpoint : '.' ∉ u := fun hmem => absurd (h '.' hmem) (by decide)
        exact Bool.eq_false_iff.mpr fun hd => hends (.point hpoint hd)
  | fractional hwhole hfraction h =>
      refine takes_fractional hwhole hfraction h (eq_false_of_mem_head? ?_)
      rintro d rest rfl hd
      exact hends (.digit hd)
  | string h => exact takes_string h
  | @blank c h =>
      have hblank : isBlank c = true := by
        simpa [isBlank, or_comm, or_left_comm, or_assoc] using h
      exact .intro (next_of_isBlank hblank v)
  | comment h =>
      refine takes_comment h fun c hc => ?_
      obtain ⟨rest, rfl⟩ := List.head?_eq_some_iff.mp hc
      exact Decidable.byContradiction fun hne => hends (.comment hne)

/-! ### The longest item -/

section Longer

variable {lexeme : Lexeme} {u v : List Char}

/-- What carries an item on belongs to a longer one. -/
theorem CarriesOn.exists_longer (h : CarriesOn lexeme u v) (hspells : lexeme.Spells u) :
    ∃ (longer : Lexeme) (u' v' : List Char), longer.Spells u' ∧ u' ++ v' = u ++ v ∧
      v'.length < v.length := by
  cases h with
  | @word kind u d rest hkind hd =>
      obtain ⟨c, cs, rfl, hc, hcs, -⟩ := exists_word_of_spells hspells hkind
      have hall : ∀ e ∈ cs ++ [d], isWordPart e = true :=
        List.forall_mem_append.mpr ⟨hcs, List.forall_mem_singleton.mpr hd⟩
      exact ⟨_, c :: (cs ++ [d]), rest, spells_word hc hall, by simp, Nat.lt_succ_self _⟩
  | @digit value u d rest hd =>
      cases hspells with
      | whole hne h =>
          have hall : ∀ e ∈ u ++ [d], isDigit e = true :=
            List.forall_mem_append.mpr ⟨h, List.forall_mem_singleton.mpr hd⟩
          exact ⟨_, u ++ [d], rest, .whole (by simp) hall, by simp, Nat.lt_succ_self _⟩
      | @fractional whole fraction hwhole hfraction h =>
          have hall : ∀ e ∈ whole ++ (fraction ++ [d]), isDigit e = true := by
            rw [← List.append_assoc]
            exact List.forall_mem_append.mpr ⟨h, List.forall_mem_singleton.mpr hd⟩
          exact ⟨_, whole ++ '.' :: (fraction ++ [d]), rest, .fractional hwhole (by simp) hall,
            by simp, Nat.lt_succ_self _⟩
  | @point value u d rest htext hd =>
      cases hspells with
      | whole hne h =>
          have hall : ∀ e ∈ u ++ [d], isDigit e = true :=
            List.forall_mem_append.mpr ⟨h, List.forall_mem_singleton.mpr hd⟩
          refine ⟨_, u ++ '.' :: [d], rest, .fractional hne (by simp) hall, by simp, ?_⟩
          simp only [List.length_cons]
          omega
      | fractional hwhole hfraction h => simp at htext
  | @equal kind u rest hkind =>
      have hall : ∀ entry ∈ symbols, entry.2 ∈ [Kind.bang, .equal, .greater, .less] →
          ∃ paired ∈ symbols, paired.1 = entry.1 ++ ['='] := by
        decide
      have hwords : ∀ entry ∈ Kind.keywords, entry.2 ∉ [Kind.bang, .equal, .greater, .less] := by
        decide
      cases hspells with
      | symbol h =>
          obtain ⟨⟨paired, longer⟩, hmem, rfl⟩ := hall _ h hkind
          exact ⟨_, u ++ ['='], rest, .symbol hmem, by simp, Nat.lt_succ_self _⟩
      | keyword h => exact absurd hkind (hwords _ h)
      | identifier => contradiction
  | @slash u rest =>
      have hall : ∀ entry ∈ symbols, entry.2 = .slash → entry.1 = ['/'] := by decide
      have hwords : ∀ entry ∈ Kind.keywords, entry.2 ≠ .slash := by decide
      cases hspells with
      | symbol h =>
          obtain rfl := hall _ h rfl
          exact ⟨_, ['/', '/'], rest, .comment (List.not_mem_nil), rfl, Nat.lt_succ_self _⟩
      | keyword h => exact absurd rfl (hwords _ h)
  | @comment u d rest hd =>
      cases hspells with
      | @comment body h =>
          have hall : '\n' ∉ body ++ [d] := by simp [h, hd.symm]
          exact ⟨_, '/' :: '/' :: (body ++ [d]), rest, .comment hall, by simp,
            Nat.lt_succ_self _⟩

/-- If some item fits at the front of a text, one that is at least as long is
taken. -/
theorem Spells.exists_takes {lexeme : Lexeme} {u : List Char} (h : lexeme.Spells u)
    (v : List Char) :
    ∃ (longest : Lexeme) (u' v' : List Char), Takes longest u' v' ∧ u' ++ v' = u ++ v ∧
      u.length ≤ u'.length := by
  by_cases hends : CarriesOn lexeme u v
  · obtain ⟨longer, u', v', hspells, happ, hlt⟩ := hends.exists_longer h
    obtain ⟨longest, u'', v'', htakes, happ', hle⟩ := hspells.exists_takes v'
    refine ⟨longest, u'', v'', htakes, happ'.trans happ, ?_⟩
    have := congrArg List.length happ
    simp only [List.length_append] at this
    omega
  · exact ⟨lexeme, u, v, h.takes hends, rfl, Nat.le_refl _⟩
termination_by v.length

theorem Takes.longest (h : Takes lexeme u v) : Longest u v := by
  intro other u' v' hspells happ
  obtain ⟨longest, u'', v'', htakes, happ', hle⟩ := hspells.exists_takes v'
  obtain ⟨-, rfl, -⟩ := htakes.eq h (happ'.trans happ)
  exact hle

/-- An item is the longest at its place if nothing carries it on, and only
then. -/
theorem Spells.longest_iff (h : lexeme.Spells u) : Longest u v ↔ ¬CarriesOn lexeme u v := by
  constructor
  · intro hlongest hcarries
    obtain ⟨longer, u', v', hspells, happ, hlt⟩ := hcarries.exists_longer h
    have hle := hlongest longer u' v' hspells happ
    have := congrArg List.length happ
    simp only [List.length_append] at this
    omega
  · exact fun hends => (h.takes hends).longest

/-- The items that are taken are the longest at their places. -/
theorem takes_iff : Takes lexeme u v ↔ lexeme.Spells u ∧ Longest u v :=
  ⟨fun h => ⟨h.spells, h.longest⟩, fun h => h.1.takes (h.1.longest_iff.mp h.2)⟩

end Longer

end Lexeme

end MiniLox
