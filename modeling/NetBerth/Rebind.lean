import Mathlib

/-!
# Placeholders

The rest of the program writes its placeholders as question marks. For Postgres
they are numbered: `rebind` goes over the bytes of a query with five states and a
lookahead of one byte, and leaves literals, quoted identifiers and comments alone.

What these are is said without the states: a query is a row of pieces, each a
byte of code, a placeholder or a region, and a region is a literal, an identifier
or a comment, which only the end of the query may leave open.
-/
namespace NetBerth.Rebind

inductive Dialect where
  | sqlite
  | postgres
  deriving DecidableEq, Repr

abbrev newline : UInt8 := 0x0A
abbrev quotationMark : UInt8 := 0x22
abbrev dollar : UInt8 := 0x24
abbrev apostrophe : UInt8 := 0x27
abbrev asterisk : UInt8 := 0x2A
abbrev hyphen : UInt8 := 0x2D
abbrev slash : UInt8 := 0x2F
abbrev questionMark : UInt8 := 0x3F

/-- `strconv.Itoa`, of what is not negative. -/
def itoa (n : ℕ) : List UInt8 :=
  if n < 10 then [UInt8.ofNat (0x30 + n)] else itoa (n / 10) ++ [UInt8.ofNat (0x30 + n % 10)]
termination_by n

inductive State where
  | normal
  | single
  | double
  | lineComment
  | blockComment
  deriving DecidableEq, Repr

/-- What is written from a byte on. The byte behind is written with it, and skipped,
where the source advances its index. -/
def rebindLoop (state : State) (n : ℕ) : List UInt8 → List UInt8
  | [] => []
  | c :: rest =>
    match state with
    | .single =>
      if c = apostrophe then
        if rest.head? = some apostrophe then c :: apostrophe :: rebindLoop .single n rest.tail
        else c :: rebindLoop .normal n rest
      else c :: rebindLoop .single n rest
    | .double =>
      if c = quotationMark then
        if rest.head? = some quotationMark then
          c :: quotationMark :: rebindLoop .double n rest.tail
        else c :: rebindLoop .normal n rest
      else c :: rebindLoop .double n rest
    | .lineComment =>
      if c = newline then c :: rebindLoop .normal n rest
      else c :: rebindLoop .lineComment n rest
    | .blockComment =>
      if c = asterisk ∧ rest.head? = some slash then c :: slash :: rebindLoop .normal n rest.tail
      else c :: rebindLoop .blockComment n rest
    | .normal =>
      if c = apostrophe then c :: rebindLoop .single n rest
      else if c = quotationMark then c :: rebindLoop .double n rest
      else if c = hyphen ∧ rest.head? = some hyphen then
        hyphen :: hyphen :: rebindLoop .lineComment n rest.tail
      else if c = slash ∧ rest.head? = some asterisk then
        slash :: asterisk :: rebindLoop .blockComment n rest.tail
      else if c = questionMark then dollar :: (itoa (n + 1) ++ rebindLoop .normal (n + 1) rest)
      else c :: rebindLoop .normal n rest
termination_by query => query.length
decreasing_by all_goals simp only [List.length_tail, List.length_cons]; omega

def rebind (query : List UInt8) (d : Dialect) : List UInt8 :=
  if d ≠ .postgres then query else rebindLoop .normal 0 query

/-! ## The pieces of a query -/

inductive Piece where
  | code (b : UInt8)
  | placeholder
  | region (bytes : List UInt8)
  deriving DecidableEq, Repr

def Piece.text : Piece → List UInt8
  | .code b => [b]
  | .placeholder => [questionMark]
  | .region bytes => bytes

/-- The placeholders are numbered, after the first `n`; the rest is as it was. -/
def render (n : ℕ) : List Piece → List UInt8
  | [] => []
  | .code b :: ps => b :: render n ps
  | .placeholder :: ps => dollar :: (itoa (n + 1) ++ render (n + 1) ps)
  | .region bytes :: ps => bytes ++ render n ps

/-- The inside of a quotation: the quote stands only in pairs. -/
inductive Escaped (q : UInt8) : List UInt8 → Prop
  | nil : Escaped q []
  | other {b : UInt8} {body : List UInt8} : b ≠ q → Escaped q body → Escaped q (b :: body)
  | doubled {body : List UInt8} : Escaped q body → Escaped q (q :: q :: body)

/-- A literal, a quoted identifier or a comment, in front of the rest of a query. -/
inductive Region : List UInt8 → List UInt8 → Prop
  | quoted {q : UInt8} {body rest : List UInt8} : q = apostrophe ∨ q = quotationMark →
      Escaped q body → rest.head? ≠ some q → Region (q :: (body ++ [q])) rest
  | openQuoted {q : UInt8} {body : List UInt8} : q = apostrophe ∨ q = quotationMark →
      Escaped q body → Region (q :: body) []
  | line {body rest : List UInt8} : newline ∉ body →
      Region (hyphen :: hyphen :: (body ++ [newline])) rest
  | openLine {body : List UInt8} : newline ∉ body → Region (hyphen :: hyphen :: body) []
  | block {body rest : List UInt8} : ¬[asterisk, slash] <:+: body ++ [asterisk] →
      Region (slash :: asterisk :: (body ++ [asterisk, slash])) rest
  | openBlock {body : List UInt8} : ¬[asterisk, slash] <:+: body →
      Region (slash :: asterisk :: body) []

/-- A byte that stands for itself in front of what follows it. -/
structure Plain (b : UInt8) (next : Option UInt8) : Prop where
  not_quote : b ≠ apostrophe ∧ b ≠ quotationMark
  not_line : ¬(b = hyphen ∧ next = some hyphen)
  not_block : ¬(b = slash ∧ next = some asterisk)
  not_placeholder : b ≠ questionMark

/-- A query cut into its pieces. -/
inductive Lexes : List UInt8 → List Piece → Prop
  | nil : Lexes [] []
  | code {b : UInt8} {rest : List UInt8} {ps : List Piece} :
      Plain b rest.head? → Lexes rest ps → Lexes (b :: rest) (.code b :: ps)
  | placeholder {rest : List UInt8} {ps : List Piece} :
      Lexes rest ps → Lexes (questionMark :: rest) (.placeholder :: ps)
  | region {r rest : List UInt8} {ps : List Piece} :
      Region r rest → Lexes rest ps → Lexes (r ++ rest) (.region r :: ps)

/-! ## The states over a region -/

/-- Which quote ends a state. -/
inductive Quotes : State → UInt8 → Prop
  | single : Quotes .single apostrophe
  | double : Quotes .double quotationMark

section
variable {state : State} {q c : UInt8} {n : ℕ} {body rest : List UInt8}

@[simp] theorem rebindLoop_nil (state : State) (n : ℕ) : rebindLoop state n [] = [] := by
  rw [rebindLoop]

theorem rebindLoop_quoted_cons (h : Quotes state q) : rebindLoop state n (c :: rest) =
    if c = q then
      if rest.head? = some q then c :: q :: rebindLoop state n rest.tail
      else c :: rebindLoop .normal n rest
    else c :: rebindLoop state n rest := by
  cases h <;> rw [rebindLoop]

/-- A quotation is written as it is, up to the quote that is not doubled. -/
theorem rebindLoop_quoted (h : Quotes state q) (hbody : Escaped q body)
    (hrest : rest.head? ≠ some q) :
    rebindLoop state n (body ++ q :: rest) = body ++ q :: rebindLoop .normal n rest := by
  induction hbody with
  | nil => rw [List.nil_append, rebindLoop_quoted_cons h, if_pos rfl, if_neg hrest, List.nil_append]
  | other hb _ ih => rw [List.cons_append, rebindLoop_quoted_cons h, if_neg hb, ih, List.cons_append]
  | doubled _ ih =>
    rw [List.cons_append, List.cons_append, rebindLoop_quoted_cons h, if_pos rfl, List.head?_cons,
      if_pos rfl, List.tail_cons, ih, List.cons_append, List.cons_append]

theorem rebindLoop_openQuoted (h : Quotes state q) (hbody : Escaped q body) :
    rebindLoop state n body = body := by
  induction hbody with
  | nil => exact rebindLoop_nil state n
  | other hb _ ih => rw [rebindLoop_quoted_cons h, if_neg hb, ih]
  | doubled _ ih =>
    rw [rebindLoop_quoted_cons h, if_pos rfl, List.head?_cons, if_pos rfl, List.tail_cons, ih]

theorem rebindLoop_line (h : newline ∉ body) :
    rebindLoop .lineComment n (body ++ newline :: rest) =
      body ++ newline :: rebindLoop .normal n rest := by
  induction body with
  | nil => rw [List.nil_append, rebindLoop, if_pos rfl, List.nil_append]
  | cons b body ih =>
    obtain ⟨hb, hbody⟩ := not_or.mp (List.mem_cons.not.mp h)
    rw [List.cons_append, rebindLoop, if_neg (Ne.symm hb), ih hbody, List.cons_append]

theorem rebindLoop_openLine (h : newline ∉ body) : rebindLoop .lineComment n body = body := by
  induction body with
  | nil => exact rebindLoop_nil _ n
  | cons b body ih =>
    obtain ⟨hb, hbody⟩ := not_or.mp (List.mem_cons.not.mp h)
    rw [rebindLoop, if_neg (Ne.symm hb), ih hbody]

/-- The end of a comment is here or further on. -/
theorem ends_cons : [asterisk, slash] <:+: c :: body ↔
    c = asterisk ∧ body.head? = some slash ∨ [asterisk, slash] <:+: body := by
  rw [List.infix_cons_iff, List.cons_prefix_cons, List.singleton_prefix_iff_head?_eq_some]
  simp only [eq_comm]

theorem rebindLoop_block (h : ¬[asterisk, slash] <:+: body ++ [asterisk]) :
    rebindLoop .blockComment n (body ++ asterisk :: slash :: rest) =
      body ++ asterisk :: slash :: rebindLoop .normal n rest := by
  induction body with
  | nil => rw [List.nil_append, rebindLoop, if_pos ⟨rfl, rfl⟩, List.tail_cons, List.nil_append]
  | cons b body ih =>
    have hend : (body ++ asterisk :: slash :: rest).head? = (body ++ [asterisk]).head? := by
      cases body <;> rfl
    have hnot : ¬(b = asterisk ∧ (body ++ asterisk :: slash :: rest).head? = some slash) := by
      rw [hend]
      exact fun hhere => h (ends_cons.mpr (.inl hhere))
    have hbody : ¬[asterisk, slash] <:+: body ++ [asterisk] := fun hin => h (List.infix_cons hin)
    rw [List.cons_append, rebindLoop, if_neg hnot, ih hbody, List.cons_append]

theorem rebindLoop_openBlock (h : ¬[asterisk, slash] <:+: body) :
    rebindLoop .blockComment n body = body := by
  induction body with
  | nil => exact rebindLoop_nil _ n
  | cons b body ih =>
    obtain ⟨hhere, hbody⟩ := not_or.mp (ends_cons.not.mp h)
    rw [rebindLoop, if_neg hhere, ih hbody]

theorem rebindLoop_normal_quote (h : Quotes state q) :
    rebindLoop .normal n (q :: rest) = q :: rebindLoop state n rest := by
  cases h with
  | single => rw [rebindLoop, if_pos rfl]
  | double => rw [rebindLoop, if_neg (by decide), if_pos rfl]

theorem quotes_of_quote (h : q = apostrophe ∨ q = quotationMark) : ∃ state, Quotes state q := by
  rcases h with rfl | rfl
  · exact ⟨.single, .single⟩
  · exact ⟨.double, .double⟩

/-- A region is written as it is, and the state behind it is the one in front of it. -/
theorem rebindLoop_region {r : List UInt8} (h : Region r rest) :
    rebindLoop .normal n (r ++ rest) = r ++ rebindLoop .normal n rest := by
  cases h with
  | quoted hq hbody hrest =>
    obtain ⟨state, hstate⟩ := quotes_of_quote hq
    rw [List.cons_append, List.append_assoc, List.singleton_append, rebindLoop_normal_quote hstate,
      rebindLoop_quoted hstate hbody hrest, List.cons_append, List.append_assoc,
      List.singleton_append]
  | openQuoted hq hbody =>
    obtain ⟨state, hstate⟩ := quotes_of_quote hq
    rw [List.append_nil, rebindLoop_nil, List.append_nil, rebindLoop_normal_quote hstate,
      rebindLoop_openQuoted hstate hbody]
  | line hbody =>
    rw [List.cons_append, List.cons_append, List.append_assoc, List.singleton_append, rebindLoop,
      if_neg (by decide), if_neg (by decide), if_pos ⟨rfl, rfl⟩, List.tail_cons,
      rebindLoop_line hbody]
    simp
  | openLine hbody =>
    rw [List.append_nil, rebindLoop_nil, List.append_nil, rebindLoop, if_neg (by decide),
      if_neg (by decide), if_pos ⟨rfl, rfl⟩, List.tail_cons, rebindLoop_openLine hbody]
  | block hbody =>
    rw [List.cons_append, List.cons_append, List.append_assoc, rebindLoop, if_neg (by decide),
      if_neg (by decide), if_neg fun h => absurd h.1 (by decide), if_pos ⟨rfl, rfl⟩, List.tail_cons, List.cons_append,
      List.cons_append, List.nil_append, rebindLoop_block hbody]
    simp
  | openBlock hbody =>
    rw [List.append_nil, rebindLoop_nil, List.append_nil, rebindLoop, if_neg (by decide),
      if_neg (by decide), if_neg fun h => absurd h.1 (by decide), if_pos ⟨rfl, rfl⟩, List.tail_cons,
      rebindLoop_openBlock hbody]

theorem rebindLoop_plain (h : Plain c rest.head?) :
    rebindLoop .normal n (c :: rest) = c :: rebindLoop .normal n rest := by
  rw [rebindLoop, if_neg h.not_quote.1, if_neg h.not_quote.2, if_neg h.not_line, if_neg h.not_block,
    if_neg h.not_placeholder]

theorem rebindLoop_placeholder : rebindLoop .normal n (questionMark :: rest) =
    dollar :: (itoa (n + 1) ++ rebindLoop .normal (n + 1) rest) := by
  rw [rebindLoop, if_neg (by decide), if_neg (by decide), if_neg fun h => absurd h.1 (by decide),
    if_neg fun h => absurd h.1 (by decide), if_pos rfl]

end

section
variable {query rest : List UInt8} {ps : List Piece}

/-- The loop numbers the placeholders of whatever pieces a query is cut into. -/
theorem rebindLoop_lexes (h : Lexes query ps) (n : ℕ) :
    rebindLoop .normal n query = render n ps := by
  induction h generalizing n with
  | nil => rw [rebindLoop_nil, render]
  | code hplain _ ih => rw [rebindLoop_plain hplain, ih, render]
  | placeholder _ ih => rw [rebindLoop_placeholder, ih, render]
  | region hregion _ ih => rw [rebindLoop_region hregion, ih, render]

theorem Lexes.text (h : Lexes query ps) : ps.flatMap Piece.text = query := by
  induction h with
  | nil => rfl
  | code _ _ ih => rw [List.flatMap_cons, ih, Piece.text, List.singleton_append]
  | placeholder _ ih => rw [List.flatMap_cons, ih, Piece.text, List.singleton_append]
  | region _ _ ih => rw [List.flatMap_cons, ih, Piece.text]

/-! ## Every query has pieces -/

/-- A quotation ends at a quote that is not doubled, or not at all. -/
theorem quotation_cases (q : UInt8) (text : List UInt8) :
    (∃ body rest, text = body ++ q :: rest ∧ Escaped q body ∧ rest.head? ≠ some q) ∨
      Escaped q text := by
  match text with
  | [] => exact .inr .nil
  | [b] =>
    by_cases hb : b = q
    · exact .inl ⟨[], [], by rw [hb]; rfl, .nil, by simp⟩
    · exact .inr (.other hb .nil)
  | b :: c :: tail =>
    by_cases hb : b = q
    · by_cases hc : c = q
      · rw [hb, hc]
        rcases quotation_cases q tail with ⟨body, rest, rfl, hbody, hrest⟩ | hopen
        · exact .inl ⟨q :: q :: body, rest, rfl, .doubled hbody, hrest⟩
        · exact .inr (.doubled hopen)
      · exact .inl ⟨[], c :: tail, by rw [hb]; rfl, .nil, by simpa using hc⟩
    · rcases quotation_cases q (c :: tail) with ⟨body, rest, heq, hbody, hrest⟩ | hopen
      · exact .inl ⟨b :: body, rest, by rw [heq]; rfl, .other hb hbody, hrest⟩
      · exact .inr (.other hb hopen)

theorem line_cases (text : List UInt8) :
    (∃ body rest, text = body ++ newline :: rest ∧ newline ∉ body) ∨ newline ∉ text := by
  induction text with
  | nil => exact .inr List.not_mem_nil
  | cons b text ih =>
    by_cases hb : b = newline
    · exact .inl ⟨[], text, by rw [hb]; rfl, List.not_mem_nil⟩
    · rcases ih with ⟨body, rest, rfl, hbody⟩ | hopen
      · exact .inl ⟨b :: body, rest, rfl, by simp [hbody, Ne.symm hb]⟩
      · exact .inr (by simp [hopen, Ne.symm hb])

/-- A comment ends at the first byte pair that ends one, or not at all. -/
theorem block_cases (text : List UInt8) :
    (∃ body rest, text = body ++ asterisk :: slash :: rest ∧
      ¬[asterisk, slash] <:+: body ++ [asterisk]) ∨ ¬[asterisk, slash] <:+: text := by
  induction text with
  | nil => exact .inr (by simp)
  | cons b text ih =>
    by_cases hend : b = asterisk ∧ text.head? = some slash
    · obtain ⟨rfl, hslash⟩ := hend
      obtain ⟨tail, rfl⟩ := List.head?_eq_some_iff.mp hslash
      exact .inl ⟨[], tail, rfl, by decide⟩
    · rcases ih with ⟨body, rest, rfl, hbody⟩ | hopen
      · refine .inl ⟨b :: body, rest, rfl, ?_⟩
        have hsame : (body ++ [asterisk]).head? = (body ++ asterisk :: slash :: rest).head? := by
          cases body <;> rfl
        rw [List.cons_append, ends_cons, hsame]
        exact not_or.mpr ⟨hend, hbody⟩
      · exact .inr (ends_cons.not.mpr (not_or.mpr ⟨hend, hopen⟩))

/-- A region and the pieces of what follows it. -/
theorem exists_lexes_region {r : List UInt8} (rest : List UInt8) (heq : query = r ++ rest) (hregion : Region r rest)
    (hrest : ∃ ps, Lexes rest ps) : ∃ ps, Lexes query ps := by
  obtain ⟨ps, hps⟩ := hrest
  exact ⟨.region r :: ps, heq ▸ .region hregion hps⟩

theorem exists_lexes_open (hregion : Region query []) : ∃ ps, Lexes query ps :=
  exists_lexes_region [] (List.append_nil query).symm hregion ⟨[], .nil⟩

theorem exists_lexes (query : List UInt8) : ∃ ps, Lexes query ps := by
  induction hlen : query.length using Nat.strong_induction_on generalizing query with
  | _ n ih =>
    have hshorter {rest : List UInt8} (h : rest.length < query.length) : ∃ ps, Lexes rest ps :=
      ih rest.length (hlen ▸ h) rest rfl
    cases query with
    | nil => exact ⟨[], .nil⟩
    | cons c text =>
      by_cases hquote : c = apostrophe ∨ c = quotationMark
      · rcases quotation_cases c text with ⟨body, rest, rfl, hbody, hrest⟩ | hopen
        · exact exists_lexes_region rest (by simp) (.quoted hquote hbody hrest)
            (hshorter (by simp; omega))
        · exact exists_lexes_open (.openQuoted hquote hopen)
      by_cases hline : c = hyphen ∧ text.head? = some hyphen
      · obtain ⟨rfl, hnext⟩ := hline
        obtain ⟨text, rfl⟩ := List.head?_eq_some_iff.mp hnext
        rcases line_cases text with ⟨body, rest, rfl, hbody⟩ | hopen
        · exact exists_lexes_region rest (by simp) (.line hbody) (hshorter (by simp; omega))
        · exact exists_lexes_open (.openLine hopen)
      by_cases hblock : c = slash ∧ text.head? = some asterisk
      · obtain ⟨rfl, hnext⟩ := hblock
        obtain ⟨text, rfl⟩ := List.head?_eq_some_iff.mp hnext
        rcases block_cases text with ⟨body, rest, rfl, hbody⟩ | hopen
        · exact exists_lexes_region rest (by simp) (.block hbody) (hshorter (by simp; omega))
        · exact exists_lexes_open (.openBlock hopen)
      obtain ⟨ps, hps⟩ : ∃ ps, Lexes text ps := hshorter (by simp)
      by_cases hplaceholder : c = questionMark
      · exact ⟨.placeholder :: ps, hplaceholder ▸ .placeholder hps⟩
      · exact ⟨.code c :: ps, .code ⟨not_or.mp hquote, hline, hblock, hplaceholder⟩ hps⟩

/-! ## A query that was rewritten -/

/-- The digits of a number stand for themselves. -/
theorem plain_of_mem_itoa {b : UInt8} {n : ℕ} (h : b ∈ itoa n) (next : Option UInt8) :
    Plain b next := by
  have hdigit (d : ℕ) (hd : d < 10) : Plain (UInt8.ofNat (0x30 + d)) next := by
    interval_cases d <;> exact ⟨by decide, fun h => absurd h.1 (by decide),
      fun h => absurd h.1 (by decide), by decide⟩
  fun_induction itoa n with
  | case1 n hn => exact List.mem_singleton.mp h ▸ hdigit n hn
  | case2 n hn ih =>
    rcases List.mem_append.mp h with hhead | hlast
    · exact ih hhead
    · exact List.mem_singleton.mp hlast ▸ hdigit _ (Nat.mod_lt _ (by decide))

/-- The pieces of what was written: the numbers are code. -/
def numbered (n : ℕ) : List Piece → List Piece
  | [] => []
  | .code b :: ps => .code b :: numbered n ps
  | .placeholder :: ps =>
    .code dollar :: ((itoa (n + 1)).map .code ++ numbered (n + 1) ps)
  | .region bytes :: ps => .region bytes :: numbered n ps

theorem render_numbered (n m : ℕ) (ps : List Piece) : render m (numbered n ps) = render n ps := by
  have hdigits (bytes : List UInt8) (qs : List Piece) :
      render m (bytes.map .code ++ qs) = bytes ++ render m qs := by
    induction bytes with
    | nil => rfl
    | cons b bytes ih => rw [List.map_cons, List.cons_append, render, ih, List.cons_append]
  induction ps generalizing n with
  | nil => rfl
  | cons p ps ih =>
    cases p with
    | code b => rw [numbered, render, render, ih]
    | placeholder => rw [numbered, render, render, hdigits, ih]
    | region bytes => rw [numbered, render, render, ih]

theorem Lexes.eq_nil (h : Lexes query ps) (hquery : query = []) : ps = [] := by
  cases h with
  | nil => rfl
  | code _ _ => cases hquery
  | placeholder _ => cases hquery
  | region hregion _ => cases hregion <;> cases hquery

/-- What follows a piece starts as before, or with a number. -/
theorem head_render (h : Lexes query ps) (n : ℕ) :
    (render n ps).head? = query.head? ∨ (render n ps).head? = some dollar := by
  cases h with
  | nil => exact .inl rfl
  | code _ _ => exact .inl rfl
  | placeholder _ => exact .inr rfl
  | region hregion _ => cases hregion <;> exact .inl rfl

theorem Plain.of_head {b : UInt8} {next next' : Option UInt8} (h : Plain b next)
    (hnext : next' = next ∨ next' = some dollar) : Plain b next' := by
  rcases hnext with rfl | rfl
  · exact h
  · exact ⟨h.not_quote, fun hline => absurd hline.2 (by decide),
      fun hblock => absurd hblock.2 (by decide), h.not_placeholder⟩

theorem Region.of_head {r rest' : List UInt8} (h : Region r rest) (hnil : rest = [] → rest' = [])
    (hhead : rest'.head? = rest.head? ∨ rest'.head? = some dollar) : Region r rest' := by
  cases h with
  | quoted hq hbody hrest =>
    refine .quoted hq hbody ?_
    rcases hhead with hsame | hdollar
    · rw [hsame]
      exact hrest
    · rw [hdollar]
      rcases hq with rfl | rfl <;> decide
  | openQuoted hq hbody => exact hnil rfl ▸ .openQuoted hq hbody
  | line hbody => exact .line hbody
  | openLine hbody => exact hnil rfl ▸ .openLine hbody
  | block hbody => exact .block hbody
  | openBlock hbody => exact hnil rfl ▸ .openBlock hbody

/-- Rewriting opens and closes no region. -/
theorem lexes_render (h : Lexes query ps) (n : ℕ) : Lexes (render n ps) (numbered n ps) := by
  have hdigits {bytes text : List UInt8} {qs : List Piece}
      (hplain : ∀ b ∈ bytes, ∀ next, Plain b next) (hqs : Lexes text qs) :
      Lexes (bytes ++ text) (bytes.map .code ++ qs) := by
    induction bytes with
    | nil => exact hqs
    | cons b bytes ih =>
      obtain ⟨hb, hbytes⟩ := List.forall_mem_cons.mp hplain
      exact .code (hb _) (ih hbytes)
  induction h generalizing n with
  | nil => exact .nil
  | code hplain hrest ih => exact .code (hplain.of_head (head_render hrest n)) (ih n)
  | placeholder _ ih =>
    refine .code ⟨by decide, fun h => absurd h.1 (by decide), fun h => absurd h.1 (by decide),
      by decide⟩ (hdigits (fun b hb next => plain_of_mem_itoa hb next) (ih (n + 1)))
  | region hregion hrest ih =>
    refine .region (hregion.of_head ?_ (head_render hrest n)) (ih n)
    intro hend
    rw [hrest.eq_nil hend]
    rfl

theorem rebind_postgres (h : Lexes query ps) : rebind query .postgres = render 0 ps :=
  (if_neg (not_not.mpr rfl)).trans (rebindLoop_lexes h 0)

/-- In what was written no placeholder is left. -/
theorem rebind_idempotent (query : List UInt8) :
    rebind (rebind query .postgres) .postgres = rebind query .postgres := by
  obtain ⟨ps, hps⟩ := exists_lexes query
  rw [rebind_postgres hps, rebind_postgres (lexes_render hps 0), render_numbered]

end

/-! ## Connections -/

inductive DriverError where
  | skip
  | other (text : String)
  deriving DecidableEq, Repr

section
variable {Ctx Args Stmt Rows Result : Type}

/-- A connection of the inner driver. All but `prepare` are interfaces that it may lack. -/
structure Conn (Ctx Args Stmt Rows Result : Type) where
  prepare : List UInt8 → Except DriverError Stmt
  prepareContext : Option (Ctx → List UInt8 → Except DriverError Stmt)
  queryContext : Option (Ctx → List UInt8 → Args → Except DriverError Rows)
  execContext : Option (Ctx → List UInt8 → Args → Except DriverError Result)

/-- What the inner driver is asked for. -/
inductive Call (Ctx Args : Type) where
  | prepare (query : List UInt8)
  | prepareContext (ctx : Ctx) (query : List UInt8)
  | queryContext (ctx : Ctx) (query : List UInt8) (args : Args)
  | execContext (ctx : Ctx) (query : List UInt8) (args : Args)

structure RebindStmt (Stmt : Type) where
  stmt : Stmt

inductive Reply (Stmt Rows Result : Type) where
  | stmt (s : RebindStmt Stmt)
  | rows (r : Rows)
  | result (r : Result)

/-- The result of a path, and the calls of the inner driver it made. -/
abbrev Traced (Ctx Args Stmt Rows Result : Type) :=
  Except DriverError (Reply Stmt Rows Result) × List (Call Ctx Args)

namespace RebindConn
variable (c : Conn Ctx Args Stmt Rows Result)

def prepare (query : List UInt8) : Traced Ctx Args Stmt Rows Result :=
  let query := rebind query .postgres
  ((c.prepare query).map fun stmt => .stmt ⟨stmt⟩, [.prepare query])

def prepareContext (ctx : Ctx) (query : List UInt8) : Traced Ctx Args Stmt Rows Result :=
  match c.prepareContext with
  | some pc =>
    let query := rebind query .postgres
    ((pc ctx query).map fun stmt => .stmt ⟨stmt⟩, [.prepareContext ctx query])
  | none => prepare c query

def queryContext (ctx : Ctx) (query : List UInt8) (args : Args) :
    Traced Ctx Args Stmt Rows Result :=
  match c.queryContext with
  | some qc =>
    let query := rebind query .postgres
    ((qc ctx query args).map .rows, [.queryContext ctx query args])
  | none => (.error .skip, [])

def execContext (ctx : Ctx) (query : List UInt8) (args : Args) :
    Traced Ctx Args Stmt Rows Result :=
  match c.execContext with
  | some ec =>
    let query := rebind query .postgres
    ((ec ctx query args).map .result, [.execContext ctx query args])
  | none => (.error .skip, [])

end RebindConn

/-- The ways a statement reaches a connection. -/
inductive Path (Ctx Args : Type) where
  | prepare
  | prepareContext (ctx : Ctx)
  | queryContext (ctx : Ctx) (args : Args)
  | execContext (ctx : Ctx) (args : Args)

def Path.run (c : Conn Ctx Args Stmt Rows Result) (query : List UInt8) :
    Path Ctx Args → Traced Ctx Args Stmt Rows Result
  | .prepare => RebindConn.prepare c query
  | .prepareContext ctx => RebindConn.prepareContext c ctx query
  | .queryContext ctx args => RebindConn.queryContext c ctx query args
  | .execContext ctx args => RebindConn.execContext c ctx query args

/-- The inner driver is asked once for a text, through the interface of the path or, for
want of it, through `prepare`; a path without either asks for nothing and is skipped. -/
def Path.handed (c : Conn Ctx Args Stmt Rows Result) (text : List UInt8) :
    Path Ctx Args → Traced Ctx Args Stmt Rows Result
  | .prepare => ((c.prepare text).map fun stmt => .stmt ⟨stmt⟩, [.prepare text])
  | .prepareContext ctx => c.prepareContext.elim
      ((c.prepare text).map fun stmt => .stmt ⟨stmt⟩, [.prepare text]) fun pc =>
      ((pc ctx text).map fun stmt => .stmt ⟨stmt⟩, [.prepareContext ctx text])
  | .queryContext ctx args => c.queryContext.elim (.error .skip, []) fun qc =>
      ((qc ctx text args).map .rows, [.queryContext ctx text args])
  | .execContext ctx args => c.execContext.elim (.error .skip, []) fun ec =>
      ((ec ctx text args).map .result, [.execContext ctx text args])

theorem Path.run_eq_handed (c : Conn Ctx Args Stmt Rows Result) (query : List UInt8)
    (path : Path Ctx Args) : path.run c query = path.handed c (rebind query .postgres) := by
  cases path with
  | prepare => rfl
  | prepareContext ctx =>
    rw [run, RebindConn.prepareContext, handed]
    cases c.prepareContext <;> rfl
  | queryContext ctx args =>
    rw [run, RebindConn.queryContext, handed]
    cases c.queryContext <;> rfl
  | execContext ctx args =>
    rw [run, RebindConn.execContext, handed]
    cases c.execContext <;> rfl

/-- A query can be cut into pieces, and whatever they are, for Postgres its placeholders
are numbered and the rest is left alone; to do so again changes nothing. Every way into
a connection hands on what was written, and nothing else. -/
theorem rebind_exact (query : List UInt8) :
    (∃ ps, Lexes query ps) ∧
    (∀ ps, Lexes query ps →
      ps.flatMap Piece.text = query ∧ rebind query .postgres = render 0 ps ∧
        ∀ (c : Conn Ctx Args Stmt Rows Result) (path : Path Ctx Args),
          path.run c query = path.handed c (render 0 ps)) ∧
    rebind (rebind query .postgres) .postgres = rebind query .postgres ∧
    rebind query .sqlite = query := by
  refine ⟨exists_lexes query, fun ps hps => ⟨hps.text, rebind_postgres hps, fun c path => ?_⟩,
    rebind_idempotent query, rfl⟩
  rw [path.run_eq_handed, rebind_postgres hps]

end

end NetBerth.Rebind
