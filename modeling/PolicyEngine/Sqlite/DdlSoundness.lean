import Mathlib
import PolicyEngine.Sqlite.Ddl

/-!
# A required CHECK that is found is there

SQLite's own lexer of the text, as far as quoting goes, and what it means that a text
holds a CHECK under it. The search of `schema.go` is sound on the texts that both
lexers cut alike: no line comment goes on behind a carriage return, no bracket
identifier stands before another `]`, and no word has one of the two letters beyond
ASCII whose upper case is an ASCII letter.
-/

open PolicyEngine.Lib List
open PolicyEngine.Lib.Utf8 (CaseTable toUpper upperAscii lossyRunes)

namespace PolicyEngine.Sqlite

/-! ## SQLite's lexer -/

inductive Lexeme where
  | blank
  | lineComment (body : Bytes)
  | blockComment
  | quoted (text : Bytes)
  | bracketed (text : Bytes)
  | word (text : Bytes)
  | symbol (text : Bytes)
  | illegal
  deriving DecidableEq, Repr

/-- The body of a quoted token and the text behind it. -/
def quotedBody (delimiter : UInt8) : Bytes → Option (Bytes × Bytes)
  | [] => none
  | b :: rest =>
    if b = delimiter then
      match rest with
      | [] => some ([], [])
      | c :: rest' =>
        if c = delimiter then (quotedBody delimiter rest').map fun p => (b :: c :: p.1, p.2) else some ([], c :: rest')
    else (quotedBody delimiter rest).map fun p => (b :: p.1, p.2)

/-- The next lexeme: a line comment ends at a line feed only, a block comment that is
not closed at the end, and a token that is not closed is illegal. -/
def nextLexeme (b : UInt8) (rest : Bytes) : Lexeme × Bytes :=
  if isSQLiteSpace b then (.blank, rest)
  else if (ascii "--").isPrefixOf (b :: rest) then
    (.lineComment ((rest.drop 1).takeWhile (· != lineFeed)), (rest.drop 1).dropWhile (· != lineFeed))
  else if (ascii "/*").isPrefixOf (b :: rest) then (.blockComment, (skipSQLiteBlockComment (rest.drop 1)).getD [])
  else if isQuote b then
    match quotedBody b rest with
    | none => (.illegal, [])
    | some (body, after) => (.quoted (b :: body), after)
  else if b == openBracket then
    match rest.dropWhile (· != closeBracket) with
    | [] => (.illegal, [])
    | _ :: after => (.bracketed (rest.takeWhile (· != closeBracket)), after)
  else if isSQLiteBareTokenByte b then
    (.word (b :: rest.takeWhile isSQLiteBareTokenByte), rest.dropWhile isSQLiteBareTokenByte)
  else (.symbol (symbolAt b rest).1, (symbolAt b rest).2)

def Lexeme.isToken : Lexeme → Bool
  | .blank | .lineComment _ | .blockComment => false
  | _ => true

def sqliteLexemes (text : Bytes) : List Lexeme := Lexer.lexemes nextLexeme text

def sqliteTokens (text : Bytes) : List Lexeme := (sqliteLexemes text).filter Lexeme.isToken

/-! ## A CHECK in a text -/

/-- ASCII letters of words in upper case. -/
def Lexeme.fold : Lexeme → Lexeme
  | .word text => .word (text.map upperAscii)
  | l => l

/-- Every parenthesis of the tokens has its partner among them, `depth` open ones before. -/
def balancedFrom : Nat → List Lexeme → Bool
  | depth, [] => depth == 0
  | depth, l :: ls =>
    if l = .symbol (ascii "(") then balancedFrom (depth + 1) ls
    else if l = .symbol (ascii ")") then
      match depth with
      | 0 => false
      | depth + 1 => balancedFrom depth ls
    else balancedFrom depth ls

/-- `CHECK`, and a balanced group in parentheses. -/
structure IsCheck (tokens body : List Lexeme) : Prop where
  tokens_eq : ∃ keyword, tokens = .word keyword :: .symbol (ascii "(") :: (body ++ [.symbol (ascii ")")]) ∧
    keyword.map upperAscii = ascii "CHECK"
  balanced : balancedFrom 0 body = true

/-- Among the tokens of the text is a CHECK whose expression is that of `check`, up to
the case of ASCII letters. -/
def HasCheck (ddl check : Bytes) : Prop :=
  ∃ before group after body expression, sqliteTokens ddl = before ++ (group ++ after) ∧ IsCheck group body ∧
    IsCheck (sqliteTokens check) expression ∧ body.map Lexeme.fold = expression.map Lexeme.fold

/-! ## Texts that both lexers cut alike -/

/-- Nothing but white space behind the first carriage return of a line comment, and no
letter with an ASCII upper case among the others of a word. -/
def Lexeme.Plain : Lexeme → Prop
  | .lineComment body => ∀ b ∈ body.dropWhile (· != carriageReturn), isSQLiteSpace b = true
  | .word text => ∀ r ∈ lossyRunes text, r ≠ 0x131 ∧ r ≠ 0x17F
  | _ => True

instance : DecidablePred Lexeme.Plain
  | .lineComment body =>
    inferInstanceAs (Decidable (∀ b ∈ body.dropWhile (· != carriageReturn), isSQLiteSpace b = true))
  | .word text => inferInstanceAs (Decidable (∀ r ∈ lossyRunes text, r ≠ 0x131 ∧ r ≠ 0x17F))
  | .blank | .blockComment | .quoted _ | .bracketed _ | .symbol _ | .illegal => inferInstanceAs (Decidable True)

/-- No bracket identifier right before a `]`. -/
def Apart : Lexeme → Lexeme → Prop
  | .bracketed _, l => l ≠ .symbol [closeBracket]
  | _, _ => True

instance : DecidableRel Apart
  | .bracketed _, l => inferInstanceAs (Decidable (l ≠ .symbol [closeBracket]))
  | .blank, _ | .lineComment _, _ | .blockComment, _ | .quoted _, _ | .word _, _ | .symbol _, _ | .illegal, _ =>
    inferInstanceAs (Decidable True)

structure PlainText (text : Bytes) : Prop where
  lexemes : ∀ l ∈ sqliteLexemes text, l.Plain
  brackets : (sqliteLexemes text).IsChain Apart

/-- A word of ASCII, or a symbol. -/
def Lexeme.Literal : Lexeme → Prop
  | .word text => ∀ b ∈ text, b < 0x80
  | .symbol _ => True
  | _ => False

instance : DecidablePred Lexeme.Literal
  | .word text => inferInstanceAs (Decidable (∀ b ∈ text, b < 0x80))
  | .symbol _ => inferInstanceAs (Decidable True)
  | .blank | .lineComment _ | .blockComment | .quoted _ | .bracketed _ | .illegal => inferInstanceAs (Decidable False)

/-- A check to require: plain, and made of ASCII words and symbols. -/
structure PlainCheck (check : Bytes) : Prop where
  text : PlainText check
  literal : ∀ l ∈ sqliteTokens check, l.Literal

/-! ## The lexers end -/

theorem skipSQLiteLineComment_eq (text : Bytes) :
    skipSQLiteLineComment text = text.dropWhile fun b => b != lineFeed && b != carriageReturn := by
  induction text with
  | nil => rfl
  | cons b rest ih => rw [skipSQLiteLineComment, dropWhile_cons, ih]

theorem length_skipSQLiteBlockComment {text after : Bytes} (h : skipSQLiteBlockComment text = some after) :
    after.length ≤ text.length := by
  fun_induction skipSQLiteBlockComment text with
  | case1 b c rest _ =>
    cases h
    simp only [length_cons]
    omega
  | case2 b c rest _ ih =>
    have := ih h
    simp only [length_cons] at this ⊢
    omega
  | case3 => cases h

theorem skipSQLiteDelimitedToken_eq (delimiter : UInt8) (text : Bytes) :
    skipSQLiteDelimitedToken delimiter text = (quotedBody delimiter text).map Prod.snd := by
  fun_induction skipSQLiteDelimitedToken delimiter text with
  | case1 => rfl
  | case2 b rest h ih =>
    rw [bne_iff_ne] at h
    rw [ih, quotedBody.eq_def delimiter (b :: rest)]
    simp [h, Function.comp_def]
  | case3 b h => simp_all [quotedBody]
  | case4 b h c rest' hc ih => simp_all [quotedBody, Function.comp_def]
  | case5 b h c rest' hc => simp_all [quotedBody]

theorem length_skipSQLiteDelimitedToken {delimiter text after}
    (h : skipSQLiteDelimitedToken delimiter text = some after) : after.length ≤ text.length := by
  fun_induction skipSQLiteDelimitedToken delimiter text with
  | case1 => cases h
  | case2 b rest _ ih =>
    have := ih h
    simp only [length_cons]
    omega
  | case3 b _ =>
    cases h
    exact Nat.zero_le _
  | case4 b _ c rest' _ ih =>
    have := ih h
    simp only [length_cons]
    omega
  | case5 b _ c rest' _ =>
    cases h
    simp only [length_cons]
    omega

theorem length_symbolAt (b : UInt8) (rest : Bytes) : (symbolAt b rest).2.length ≤ rest.length := by
  unfold symbolAt
  split
  · rw [length_drop]
    omega
  · exact Nat.le_refl _

theorem consumes_nextDDLToken [CaseTable] : Lexer.Consumes nextDDLToken := by
  intro b rest
  have hdropWhile : ∀ (p : UInt8 → Bool) (l : Bytes), (l.dropWhile p).length ≤ l.length :=
    fun p l => (dropWhile_sublist p).length_le
  have hdrop : (rest.drop 1).length ≤ rest.length := (drop_sublist 1 rest).length_le
  unfold nextDDLToken
  split_ifs
  · exact Nat.le_refl _
  · rw [skipSQLiteLineComment_eq]
    exact Nat.le_trans (hdropWhile _ _) hdrop
  · split
    · exact Nat.zero_le _
    · rename_i after h
      exact Nat.le_trans (length_skipSQLiteBlockComment h) hdrop
  · split
    · exact Nat.zero_le _
    · rename_i after h
      exact length_skipSQLiteDelimitedToken h
  · split
    · exact Nat.zero_le _
    · rename_i after h
      exact length_skipSQLiteDelimitedToken h
  · exact hdropWhile _ _
  · exact length_symbolAt b rest

theorem consumes_nextLexeme : Lexer.Consumes nextLexeme := by
  intro b rest
  have hdropWhile : ∀ (p : UInt8 → Bool) (l : Bytes), (l.dropWhile p).length ≤ l.length :=
    fun p l => (dropWhile_sublist p).length_le
  have hdrop : (rest.drop 1).length ≤ rest.length := (drop_sublist 1 rest).length_le
  unfold nextLexeme
  split_ifs
  · exact Nat.le_refl _
  · exact Nat.le_trans (hdropWhile _ _) hdrop
  · cases h : skipSQLiteBlockComment (rest.drop 1) with
    | none => exact Nat.zero_le _
    | some after => exact Nat.le_trans (length_skipSQLiteBlockComment h) hdrop
  · split
    · exact Nat.zero_le _
    · rename_i body after h
      have hskip : skipSQLiteDelimitedToken b rest = some after := by
        rw [skipSQLiteDelimitedToken_eq, h]
        rfl
      exact length_skipSQLiteDelimitedToken hskip
  · split
    · exact Nat.zero_le _
    · rename_i c after h
      have := hdropWhile (· != closeBracket) rest
      rw [h, length_cons] at this
      exact Nat.le_trans (Nat.le_succ _) this
  · exact hdropWhile _ _
  · exact length_symbolAt b rest

theorem sqliteLexemes_cons (b : UInt8) (rest : Bytes) :
    sqliteLexemes (b :: rest) = (nextLexeme b rest).1 :: sqliteLexemes (nextLexeme b rest).2 :=
  consumes_nextLexeme.lexemes_cons b rest

theorem sqliteTokens_cons (b : UInt8) (rest : Bytes) :
    sqliteTokens (b :: rest) = [(nextLexeme b rest).1].filter Lexeme.isToken ++ sqliteTokens (nextLexeme b rest).2 := by
  rw [sqliteTokens, sqliteLexemes_cons, ← singleton_append, filter_append]
  rfl

/-! ## Both lexers on a plain text -/

section

variable [CaseTable]

theorem canonicalDDLTokens_cons (b : UInt8) (rest : Bytes) :
    canonicalDDLTokens (b :: rest) =
      (nextDDLToken b rest).1 >>= fun token => (token.toList ++ ·) <$> canonicalDDLTokens (nextDDLToken b rest).2 := by
  rw [canonicalDDLTokens, consumes_nextDDLToken.lexemes_cons]
  cases (nextDDLToken b rest).1 <;> rfl

theorem canonicalDDLTokens_spaces {spaces : Bytes} (h : ∀ b ∈ spaces, isSQLiteSpace b = true) (text : Bytes) :
    canonicalDDLTokens (spaces ++ text) = canonicalDDLTokens text := by
  induction spaces with
  | nil => rfl
  | cons b spaces ih =>
    obtain ⟨hb, hspaces⟩ := forall_mem_cons.1 h
    have hnext : nextDDLToken b (spaces ++ text) = (.ok none, spaces ++ text) := by rw [nextDDLToken, if_pos hb]
    rw [cons_append, canonicalDDLTokens_cons, hnext]
    simp only [ok_bind, Option.toList_none, nil_append]
    rw [ih hspaces, id_map']

/-- What the code's token tells of SQLite's. -/
inductive Reads : DdlToken → Lexeme → Prop
  | word {text : Bytes} (h : (Lexeme.word text).Plain) : Reads (.word (toUpper text)) (.word text)
  | quoted (text : Bytes) : Reads .quoted (.quoted text)
  | bracketed (text : Bytes) : Reads .quoted (.bracketed text)
  | symbol (text : Bytes) : Reads (.symbol text) (.symbol text)

variable {rest : Bytes}

omit [CaseTable] in
theorem PlainText.next {b : UInt8} (h : PlainText (b :: rest)) :
    (nextLexeme b rest).1.Plain ∧ PlainText (nextLexeme b rest).2 := by
  obtain ⟨hlexemes, hbrackets⟩ := h
  rw [sqliteLexemes_cons] at hlexemes hbrackets
  obtain ⟨hl, hrest⟩ := forall_mem_cons.1 hlexemes
  exact ⟨hl, hrest, hbrackets.of_cons⟩

omit [CaseTable] in
/-- Where a line comment ends for the code, only white space is left of it. -/
theorem skipSQLiteLineComment_spaces (text : Bytes) :
    skipSQLiteLineComment text =
      (text.takeWhile (· != lineFeed)).dropWhile (· != carriageReturn) ++ text.dropWhile (· != lineFeed) := by
  induction text with
  | nil => rfl
  | cons b rest ih =>
    rw [skipSQLiteLineComment, takeWhile_cons, dropWhile_cons, ih]
    by_cases hlf : b = lineFeed
    · simp [hlf]
    · by_cases hcr : b = carriageReturn
      · simp [hcr, lineFeed, carriageReturn, takeWhile_append_dropWhile]
      · simp [hlf, hcr]

omit [CaseTable] in
theorem skipSQLiteDelimitedToken_dropWhile (delimiter : UInt8) (text : Bytes) :
    skipSQLiteDelimitedToken delimiter text =
      match text.dropWhile (· != delimiter) with
      | [] => none
      | [_] => some []
      | _ :: c :: rest => if c == delimiter then skipSQLiteDelimitedToken delimiter rest else some (c :: rest) := by
  induction text with
  | nil => rfl
  | cons b rest ih =>
    rw [skipSQLiteDelimitedToken.eq_def, dropWhile_cons]
    by_cases hb : b = delimiter
    · cases rest <;> simp [hb]
    · simp [hb, ih]

omit [CaseTable] in
/-- A bracket identifier that no other `]` follows ends at its first `]`. -/
theorem skipSQLiteBracketIdentifier_eq {c after} (hdrop : rest.dropWhile (· != closeBracket) = c :: after)
    (hapart : (Lexeme.bracketed (rest.takeWhile (· != closeBracket)) :: sqliteLexemes after).IsChain Apart) :
    skipSQLiteBracketIdentifier rest = some after := by
  rw [skipSQLiteBracketIdentifier, skipSQLiteDelimitedToken_dropWhile, hdrop]
  cases after with
  | nil => rfl
  | cons d after =>
    have hd : d ≠ closeBracket := by
      rintro rfl
      have hnext : nextLexeme closeBracket after = (.symbol [closeBracket], after) := by
        cases after with
        | nil => rfl
        | cons e after => simp [nextLexeme, symbolAt, isSQLiteTwoByteOperator, ascii, isSQLiteSpace, isQuote,
            isSQLiteBareTokenByte, closeBracket, lineFeed, carriageReturn, singleQuote, doubleQuote, backQuote, openBracket]
      rw [sqliteLexemes_cons, hnext] at hapart
      exact (isChain_cons_cons.1 hapart).1 rfl
    simp [hd]

/-- A round of the code's loop, against SQLite's lexeme: it fails, or it goes on at the
same place, up to white space, with a token that tells of the lexeme. -/
theorem nextDDLToken_agrees {b : UInt8} (h : PlainText (b :: rest)) :
    (∃ e, (nextDDLToken b rest).1 = .error e) ∨
      ∃ token spaces, nextDDLToken b rest = (.ok token, spaces ++ (nextLexeme b rest).2) ∧
        (∀ c ∈ spaces, isSQLiteSpace c = true) ∧
        List.Forall₂ Reads token.toList ([(nextLexeme b rest).1].filter Lexeme.isToken) := by
  have hplain := h.next.1
  have hbrackets := h.brackets
  rw [sqliteLexemes_cons] at hbrackets
  unfold nextDDLToken nextLexeme at *
  by_cases hspace : isSQLiteSpace b
  · simp only [if_pos hspace]
    exact .inr ⟨none, [], rfl, by simp, .nil⟩
  simp only [if_neg hspace] at *
  by_cases hline : (ascii "--").isPrefixOf (b :: rest)
  · simp only [if_pos hline] at *
    exact .inr ⟨none, _, by rw [skipSQLiteLineComment_spaces], hplain, .nil⟩
  simp only [if_neg hline] at *
  by_cases hblock : (ascii "/*").isPrefixOf (b :: rest)
  · simp only [if_pos hblock] at *
    cases skipSQLiteBlockComment (rest.drop 1) with
    | none => exact .inl ⟨_, rfl⟩
    | some after => exact .inr ⟨none, [], rfl, by simp, .nil⟩
  simp only [if_neg hblock] at *
  by_cases hquote : isQuote b
  · simp only [if_pos hquote] at *
    rw [skipSQLiteDelimitedToken_eq]
    cases quotedBody b rest with
    | none => exact .inl ⟨_, rfl⟩
    | some p => exact .inr ⟨some .quoted, [], rfl, by simp, .cons (.quoted _) .nil⟩
  simp only [if_neg hquote] at *
  by_cases hbracket : b == openBracket
  · simp only [if_pos hbracket] at *
    cases hdrop : rest.dropWhile (· != closeBracket) with
    | nil =>
      rw [skipSQLiteBracketIdentifier, skipSQLiteDelimitedToken_dropWhile, hdrop]
      exact .inl ⟨_, rfl⟩
    | cons c after =>
      rw [hdrop] at hbrackets
      rw [skipSQLiteBracketIdentifier_eq hdrop hbrackets]
      exact .inr ⟨some .quoted, [], rfl, by simp, .cons (.bracketed _) .nil⟩
  simp only [if_neg hbracket] at *
  by_cases hbare : isSQLiteBareTokenByte b
  · simp only [if_pos hbare] at *
    exact .inr ⟨some _, [], rfl, by simp, .cons (.word hplain) .nil⟩
  · simp only [if_neg hbare] at *
    exact .inr ⟨some _, [], rfl, by simp, .cons (.symbol _) .nil⟩

variable {tokens : List DdlToken}

theorem canonicalDDLTokens_reads {text : Bytes} (h : PlainText text) (hok : canonicalDDLTokens text = .ok tokens) :
    List.Forall₂ Reads tokens (sqliteTokens text) := by
  induction text using consumes_nextLexeme.induct generalizing tokens with
  | nil =>
    cases hok
    exact .nil
  | cons b rest ih =>
    rw [canonicalDDLTokens_cons, bind_eq_ok] at hok
    obtain ⟨token, htoken, hok⟩ := hok
    rcases nextDDLToken_agrees h with ⟨e, he⟩ | ⟨token', spaces, hnext, hspaces, hreads⟩
    · rw [he] at htoken
      cases htoken
    rw [hnext] at htoken hok
    cases htoken
    rw [canonicalDDLTokens_spaces hspaces, map_eq_pure_bind, bind_eq_ok] at hok
    obtain ⟨tokens', htokens', hok⟩ := hok
    cases hok
    rw [sqliteTokens_cons]
    exact rel_append hreads (ih h.next.2 htokens')

/-! ## Groups -/

variable {t : DdlToken} {l : Lexeme}

theorem Reads.symbol_iff (h : Reads t l) (text : String) :
    isDDLSymbol t text = true ↔ l = .symbol (ascii text) := by
  cases h <;> simp [isDDLSymbol]

/-- A word whose upper case is ASCII is ASCII, and its upper case is that of its letters. -/
theorem upperAscii_of_toUpper {text upper : Bytes} (h : (Lexeme.word text).Plain) (hupper : toUpper text = upper)
    (hascii : ∀ b ∈ upper, b < 0x80) : text.map upperAscii = upper := by
  rw [← hupper, Utf8.toUpper_ascii]
  apply Utf8.ascii_of_toUpper h
  rw [hupper]
  exact hascii

theorem Reads.keyword (h : Reads t l) (hcheck : isDDLWord t "CHECK" = true) :
    ∃ keyword, l = .word keyword ∧ keyword.map upperAscii = ascii "CHECK" := by
  cases h with
  | word hplain =>
    simp only [isDDLWord, beq_iff_eq, DdlToken.word.injEq] at hcheck
    exact ⟨_, rfl, upperAscii_of_toUpper hplain hcheck (by decide +kernel)⟩
  | quoted => cases hcheck
  | bracketed => cases hcheck
  | symbol => cases hcheck

theorem Reads.fold_eq {l' : Lexeme} (h : Reads t l) (h' : Reads t l') (hliteral : l'.Literal) :
    l.fold = l'.fold := by
  cases h' with
  | word =>
    rename_i text' _
    generalize hupper : toUpper text' = upper at h
    rw [Utf8.toUpper_ascii hliteral] at hupper
    cases h with
    | word hplain =>
      rename_i text
      rw [Lexeme.fold, Lexeme.fold, hupper, upperAscii_of_toUpper hplain rfl]
      intro b hb
      rw [← hupper, mem_map] at hb
      obtain ⟨c, hc, rfl⟩ := hb
      exact Utf8.upperAscii_lt (hliteral c hc)
  | quoted => cases hliteral
  | bracketed => cases hliteral
  | symbol =>
    cases h
    rfl

variable {index : Nat}

/-- The scan stops at the partner of the parenthesis before it. -/
theorem matchingFrom_reads {ls : List Lexeme} (h : List.Forall₂ Reads tokens ls) {depth : Nat} {end_ : Nat}
    (hend : matchingFrom (depth + 1) index tokens = some end_) :
    ∃ body after, ls = body ++ .symbol (ascii ")") :: after ∧ end_ = index + body.length ∧
      balancedFrom depth body = true := by
  induction h generalizing depth index with
  | nil => cases hend
  | cons hr hrest ih =>
    rename_i t l tokens ls
    rw [matchingFrom] at hend
    split at hend
    · rename_i hopen
      have hend' : matchingFrom ((depth + 1 : Nat) + 1) (index + 1) tokens = some end_ := hend
      obtain ⟨body, after, rfl, rfl, hbalanced⟩ := ih hend'
      refine ⟨l :: body, after, rfl, by rw [length_cons]; omega, ?_⟩
      rw [balancedFrom.eq_def]
      simp [(hr.symbol_iff "(").1 hopen, hbalanced]
    · rename_i hopen
      split at hend
      · rename_i hclose
        have hl := (hr.symbol_iff ")").1 hclose
        split at hend
        · rename_i hdepth
          cases hend
          refine ⟨[], ls, by rw [hl]; rfl, rfl, ?_⟩
          rw [show depth = 0 by omega]
          rfl
        · rename_i hdepth
          split at hend
          · cases hend
          · obtain ⟨depth, rfl⟩ : ∃ n, depth = n + 1 := ⟨depth - 1, by omega⟩
            have hend' : matchingFrom ((depth : Int) + 1) (index + 1) tokens = some end_ := by
              rw [← hend]
              congr 1
              omega
            obtain ⟨body, after, rfl, rfl, hbalanced⟩ := ih hend'
            refine ⟨l :: body, after, rfl, by rw [length_cons]; omega, ?_⟩
            rw [balancedFrom.eq_def]
            simp [hl, hbalanced, ascii]
      · rename_i hclose
        obtain ⟨body, after, rfl, rfl, hbalanced⟩ := ih hend
        refine ⟨l :: body, after, rfl, by rw [length_cons]; omega, ?_⟩
        rw [balancedFrom.eq_def]
        simp only [if_neg (mt (hr.symbol_iff "(").2 hopen), if_neg (mt (hr.symbol_iff ")").2 hclose), hbalanced]

omit [CaseTable] in
theorem checkAt_eq (h : checkAt tokens index = true) :
    ∃ keyword paren rest, tokens.drop index = keyword :: paren :: rest ∧ isDDLWord keyword "CHECK" = true ∧
      isDDLSymbol paren "(" = true := by
  rw [checkAt, Bool.and_eq_true, Option.any_eq_true, Option.any_eq_true] at h
  obtain ⟨⟨keyword, hkeyword, hcheck⟩, paren, hparen, hopen⟩ := h
  obtain ⟨hi, rfl⟩ := List.getElem?_eq_some_iff.1 hkeyword
  obtain ⟨hi', rfl⟩ := List.getElem?_eq_some_iff.1 hparen
  exact ⟨_, _, _, by rw [List.drop_eq_getElem_cons hi, List.drop_eq_getElem_cons hi'], hcheck, hopen⟩

/-- A group of the code's tokens is a CHECK among SQLite's. -/
theorem isCheck_of_checkAt {ls : List Lexeme} (h : List.Forall₂ Reads tokens ls) {end_ : Nat}
    (hcheck : checkAt tokens index = true) (hend : matchingDDLParenthesis tokens (index + 1) = some end_) :
    ∃ group after body, ls = ls.take index ++ (group ++ after) ∧ IsCheck group body ∧
      List.Forall₂ Reads (slice tokens (index + 2) end_) body ∧ end_ = index + 2 + body.length ∧
      group.length = body.length + 3 := by
  obtain ⟨keyword, paren, rest, hdrop, hword, hopen⟩ := checkAt_eq hcheck
  have hreads := List.forall₂_drop index h
  have hls := take_append_drop index ls
  rw [hdrop] at hreads
  generalize hdropped : ls.drop index = dropped at hreads hls
  cases hreads with
  | cons hkeyword hreads =>
    cases hreads with
    | cons hparen hrest =>
      rename_i l ls' l' ls''
      obtain ⟨text, rfl, htext⟩ := hkeyword.keyword hword
      obtain rfl := (hparen.symbol_iff "(").1 hopen
      -- The scan starts at the parenthesis itself, so the group is read at depth one.
      have hdrop1 : tokens.drop (index + 1) = paren :: rest := by
        rw [← drop_drop, hdrop]
        rfl
      have hscan : matchingFrom ((0 : Nat) + 1) (index + 2) rest = some end_ := by
        rw [matchingDDLParenthesis, hdrop1, matchingFrom, if_pos hopen] at hend
        exact hend
      obtain ⟨body, after, rfl, rfl, hbalanced⟩ := matchingFrom_reads hrest hscan
      have hslice : slice tokens (index + 2) (index + 2 + body.length) = rest.take body.length := by
        rw [slice, ← take_drop, ← drop_drop, hdrop]
        rfl
      refine ⟨.word text :: .symbol (ascii "(") :: (body ++ [.symbol (ascii ")")]), after, body, ?_,
        ⟨⟨text, rfl, htext⟩, hbalanced⟩, ?_, rfl, by simp⟩
      · conv_lhs => rw [← hls]
        simp
      · rw [hslice]
        have htake := List.forall₂_take body.length hrest
        rwa [take_left] at htake

variable {expression : List DdlToken}

omit [CaseTable] in
theorem containsFrom_eq_true {indexes : List Nat} (h : containsFrom tokens expression indexes = true) :
    ∃ index end_, checkAt tokens index = true ∧ matchingDDLParenthesis tokens (index + 1) = some end_ ∧
      slice tokens (index + 2) end_ = expression := by
  induction indexes with
  | nil => cases h
  | cons index indexes ih =>
    rw [containsFrom] at h
    split at h
    · exact ih h
    · rename_i hcheck
      split at h
      · cases h
      · rename_i end_ hend
        rw [Bool.or_eq_true, beq_iff_eq] at h
        rcases h with h | h
        · exact ⟨index, end_, by simpa using hcheck, hend, h⟩
        · exact ih h

/-- The expression of a required check is that of SQLite's tokens of it. -/
theorem isCheck_of_canonicalCheckExpression {check : Bytes} (h : PlainText check)
    (hexpression : canonicalCheckExpression check = some expression) :
    ∃ body, IsCheck (sqliteTokens check) body ∧ List.Forall₂ Reads expression body := by
  unfold canonicalCheckExpression at hexpression
  split at hexpression
  · cases hexpression
  rename_i tokens htokens
  have hreads := canonicalDDLTokens_reads h htokens
  split at hexpression
  · cases hexpression
  rename_i hguard
  split at hexpression
  · cases hexpression
  rename_i end_ hend
  split at hexpression
  · cases hexpression
  rename_i hlast
  cases hexpression
  simp only [Bool.or_eq_true, decide_eq_true_eq, Bool.not_eq_true', not_or, Bool.not_eq_false, bne_iff_ne, ne_eq,
    Decidable.not_not] at hguard hlast
  obtain ⟨group, after, body, hls, hcheck, hbody, hlength, hgroup⟩ := isCheck_of_checkAt hreads hguard.2 hend
  rw [take_zero, nil_append] at hls
  -- The group takes as many tokens as there are.
  have hafter : after = [] := by
    have hcount := hreads.length_eq
    rw [hls, length_append] at hcount
    exact length_eq_zero_iff.1 (by omega)
  rw [hafter, append_nil] at hls
  exact ⟨body, hls ▸ hcheck, hbody⟩

theorem fold_eq_of_reads {body required} (h : List.Forall₂ Reads expression body)
    (h' : List.Forall₂ Reads expression required) (hliteral : ∀ l ∈ required, l.Literal) :
    body.map Lexeme.fold = required.map Lexeme.fold := by
  induction h generalizing required with
  | nil =>
    cases h'
    rfl
  | cons hr _ ih =>
    cases h' with
    | cons hr' hrest' =>
      obtain ⟨hl, hrest⟩ := forall_mem_cons.1 hliteral
      rw [map_cons, map_cons, hr.fold_eq hr' hl, ih hrest' hrest]

end

/-- The checks of the schema are plain. -/
theorem plainCheck_of_required {check : Bytes} (h : check ∈ requiredChecks) : PlainCheck check := by
  have hlexemes : ∀ c ∈ requiredChecks, ∀ l ∈ sqliteLexemes c, l.Plain := by decide +kernel
  have hbrackets : ∀ c ∈ requiredChecks, (sqliteLexemes c).IsChain Apart := by decide +kernel
  have hliteral : ∀ c ∈ requiredChecks, ∀ l ∈ sqliteTokens c, l.Literal := by decide +kernel
  exact ⟨⟨hlexemes check h, hbrackets check h⟩, hliteral check h⟩

/-- The ASCII letters and the two others with an ASCII upper case. -/
@[reducible] def sampleTable : CaseTable where
  upper r := if r = 0x131 then 0x49 else if r = 0x17F then 0x53 else if 0x61 ≤ r ∧ r ≤ 0x7A then r - 0x20 else r
  upper_ascii := by
    intro b hb
    have hlt : b.toNat < 0x80 := UInt8.lt_iff_toNat_lt.1 hb
    rw [if_neg (by omega), if_neg (by omega)]
    by_cases h : 0x61 ≤ b.toNat ∧ b.toNat ≤ 0x7A
    · have hletter : (decide (0x61 ≤ b) && decide (b ≤ 0x7A)) = true := by
        simpa [UInt8.le_iff_toNat_le] using h
      rw [if_pos h, upperAscii, if_pos hletter, UInt8.toNat_sub_of_le]
      · rfl
      · exact UInt8.le_iff_toNat_le.2 (Nat.le_trans (by decide) h.1)
    · have hletter : ¬(decide (0x61 ≤ b) && decide (b ≤ 0x7A)) = true := by
        simpa [UInt8.le_iff_toNat_le] using h
      rw [if_neg h, upperAscii, if_neg hletter]
  upper_dotlessI := rfl
  upper_longS := rfl
  upper_other := by
    intro r hr h h'
    rw [if_neg h, if_neg h', if_neg (by omega)]
    exact hr

/-- A table whose CHECK is in a comment that goes on behind a carriage return. -/
def commentedDdl : Bytes :=
  ascii "CREATE TABLE slot_heads (generation INTEGER NOT NULL -- \rCHECK (GENERATION > 0)\n)"

def checkedDdl : Bytes := ascii "CREATE TABLE slot_heads (generation INTEGER NOT NULL CHECK (generation > 0))"

end PolicyEngine.Sqlite
