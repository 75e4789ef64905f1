import NetBerth.CronParser
import NetBerth.EngineInstances

/-!
# Validated schedules

The validator looks at a schedule with a regular expression: five or six fields, each of them a
star, a star with a step, or any text of digits, commas, hyphens and slashes. The parser of the
scheduler wants six fields and numbers in bounds. A schedule that is let through runs exactly if
it is such a one; a job with any other is stored, and nothing runs it.
-/
namespace NetBerth.CronSchedules
open Accounts (isSpace trimSpace)
open CronParser EngineInstances InstanceMap ModuleLoading Rules SqlTable
open TextFields (fieldsFunc)

/-! ## The validator -/

def oneOf (chars : List Char) : RegularExpression Char :=
  (chars.map RegularExpression.char).foldr (· + ·) 0

/-- `r+`. -/
def atLeastOnce (r : RegularExpression Char) : RegularExpression Char := r * r.star

def digits : List Char := ['0', '1', '2', '3', '4', '5', '6', '7', '8', '9']

/-- `\s`. -/
def spaces : List Char := ['\t', '\n', '\x0c', '\r', ' ']

def cronField : RegularExpression Char :=
  .char '*' + .char '*' * (.char '/' * atLeastOnce (oneOf digits)) +
    atLeastOnce (oneOf (digits ++ [',', '-', '/']))

def cronRegex : RegularExpression Char :=
  cronField * ((atLeastOnce (oneOf spaces) * cronField) ^ 4 +
    (atLeastOnce (oneOf spaces) * cronField) ^ 5)

def cronSchedule (s : String) : Bool := cronRegex.rmatch (trimSpace s).toList

/-! ## What it lets through -/

theorem mem_oneOf {chars text : List Char} :
    text ∈ (oneOf chars).matches' ↔ ∃ c ∈ chars, text = [c] := by
  induction chars with
  | nil => simp [oneOf]
  | cons d chars ih =>
    have hcons : oneOf (d :: chars) = .char d + oneOf chars := rfl
    rw [hcons, RegularExpression.matches'_add, RegularExpression.matches'_char, Language.mem_add, ih,
      List.exists_mem_cons_iff]
    rfl

theorem mem_atLeastOnce {chars text : List Char} :
    text ∈ (atLeastOnce (oneOf chars)).matches' ↔ text ≠ [] ∧ ∀ c ∈ text, c ∈ chars := by
  rw [atLeastOnce, RegularExpression.matches'_mul, RegularExpression.matches'_star]
  constructor
  · intro h
    obtain ⟨a, ha, b, hb, rfl⟩ := Language.mem_mul.mp h
    obtain ⟨c, hc, rfl⟩ := mem_oneOf.mp ha
    refine ⟨by simp, ?_⟩
    obtain ⟨words, rfl, hwords⟩ := Language.mem_kstar.mp hb
    intro d hd
    rcases List.mem_append.mp hd with hd | hd
    · rw [List.mem_singleton.mp hd]
      exact hc
    · obtain ⟨word, hword, hd⟩ := List.mem_flatten.mp hd
      obtain ⟨e, he, rfl⟩ := mem_oneOf.mp (hwords word hword)
      rw [List.mem_singleton.mp hd]
      exact he
  · rintro ⟨hne, hchars⟩
    obtain ⟨c, rest, rfl⟩ := List.exists_cons_of_ne_nil hne
    rw [List.forall_mem_cons] at hchars
    refine Language.mem_mul.mpr ⟨[c], mem_oneOf.mpr ⟨c, hchars.1, rfl⟩, rest, ?_, rfl⟩
    have hflatten : rest = (rest.map fun d => [d]).flatten := (List.flatMap_singleton' rest).symm
    refine Language.mem_kstar.mpr ⟨rest.map fun d => [d], hflatten, ?_⟩
    intro word hword
    obtain ⟨d, hd, rfl⟩ := List.mem_map.mp hword
    exact mem_oneOf.mpr ⟨d, hchars.2 d hd, rfl⟩

/-- A field of the regular expression. -/
def IsCronField (field : List Char) : Prop :=
  field = ['*'] ∨ (∃ step, (step ≠ [] ∧ ∀ c ∈ step, c ∈ digits) ∧ field = '*' :: '/' :: step) ∨
    field ≠ [] ∧ ∀ c ∈ field, c ∈ digits ++ [',', '-', '/']

theorem mem_cronField {field : List Char} : field ∈ cronField.matches' ↔ IsCronField field := by
  rw [cronField, RegularExpression.matches'_add, RegularExpression.matches'_add,
    RegularExpression.matches'_mul, RegularExpression.matches'_mul, RegularExpression.matches'_char,
    RegularExpression.matches'_char, Language.mem_add, Language.mem_add, mem_atLeastOnce, or_assoc]
  refine or_congr Iff.rfl (or_congr ?_ Iff.rfl)
  constructor
  · intro h
    obtain ⟨star, hstar, rest, hrest, rfl⟩ := Language.mem_mul.mp h
    obtain ⟨slash, hslash, step, hstep, rfl⟩ := Language.mem_mul.mp hrest
    obtain rfl : star = ['*'] := hstar
    obtain rfl : slash = ['/'] := hslash
    exact ⟨step, mem_atLeastOnce.mp hstep, rfl⟩
  · rintro ⟨step, hstep, rfl⟩
    refine Language.mem_mul.mpr ⟨['*'], rfl, '/' :: step, ?_, rfl⟩
    exact Language.mem_mul.mpr ⟨['/'], rfl, step, mem_atLeastOnce.mpr hstep, rfl⟩

/-- Fields with white space before them. -/
def IsSpaced (r : List Char × List Char) : Prop :=
  (r.1 ≠ [] ∧ ∀ c ∈ r.1, c ∈ spaces) ∧ IsCronField r.2

theorem mem_pow {n : ℕ} {text : List Char} :
    text ∈ ((atLeastOnce (oneOf spaces) * cronField) ^ n).matches' ↔
      ∃ rest : List (List Char × List Char), rest.length = n ∧ (∀ r ∈ rest, IsSpaced r) ∧
        text = rest.flatMap fun r => r.1 ++ r.2 := by
  rw [RegularExpression.matches'_pow]
  induction n generalizing text with
  | zero =>
    rw [pow_zero, Language.mem_one]
    constructor
    · rintro rfl
      exact ⟨[], rfl, by simp, rfl⟩
    · rintro ⟨rest, hlength, -, rfl⟩
      rw [List.length_eq_zero_iff.mp hlength]
      rfl
  | succ n ih =>
    rw [pow_succ', Language.mem_mul]
    constructor
    · rintro ⟨first, hfirst, tail, htail, rfl⟩
      rw [RegularExpression.matches'_mul] at hfirst
      obtain ⟨space, hspace, field, hfield, rfl⟩ := Language.mem_mul.mp hfirst
      obtain ⟨rest, hlength, hrest, rfl⟩ := ih.mp htail
      refine ⟨(space, field) :: rest, by rw [List.length_cons, hlength], ?_, rfl⟩
      rw [List.forall_mem_cons]
      exact ⟨⟨mem_atLeastOnce.mp hspace, mem_cronField.mp hfield⟩, hrest⟩
    · rintro ⟨rest, hlength, hrest, rfl⟩
      obtain ⟨⟨space, field⟩, tail, rfl⟩ := List.exists_cons_of_length_eq_add_one hlength
      rw [List.forall_mem_cons] at hrest
      refine ⟨space ++ field, ?_, tail.flatMap fun r => r.1 ++ r.2, ?_, rfl⟩
      · rw [RegularExpression.matches'_mul]
        exact Language.mem_mul.mpr ⟨space, mem_atLeastOnce.mpr hrest.1.1, field,
          mem_cronField.mpr hrest.1.2, rfl⟩
      · exact ih.mpr ⟨tail, by simpa using hlength, hrest.2, rfl⟩

theorem cronSchedule_iff {s : String} :
    cronSchedule s = true ↔ ∃ (first : List Char) (rest : List (List Char × List Char)),
      IsCronField first ∧ (rest.length = 4 ∨ rest.length = 5) ∧ (∀ r ∈ rest, IsSpaced r) ∧
        (trimSpace s).toList = first ++ rest.flatMap fun r => r.1 ++ r.2 := by
  rw [cronSchedule, RegularExpression.rmatch_iff_matches', cronRegex,
    RegularExpression.matches'_mul, RegularExpression.matches'_add, Language.mem_mul]
  simp only [Language.mem_add, mem_pow, mem_cronField]
  constructor
  · rintro ⟨first, hfirst, tail, ⟨rest, hlength, hrest, rfl⟩ | ⟨rest, hlength, hrest, rfl⟩, htext⟩
    · exact ⟨first, rest, hfirst, .inl hlength, hrest, htext.symm⟩
    · exact ⟨first, rest, hfirst, .inr hlength, hrest, htext.symm⟩
  · rintro ⟨first, rest, hfirst, hlength, hrest, htext⟩
    refine ⟨first, hfirst, _, ?_, htext.symm⟩
    exact hlength.imp (fun h => ⟨rest, h, hrest, rfl⟩) fun h => ⟨rest, h, hrest, rfl⟩

/-! ## What the parser makes of it -/

theorem trimSpace_parts (s : String) : ∃ before after : List Char,
    (∀ c ∈ before, isSpace c = true) ∧ (∀ c ∈ after, isSpace c = true) ∧
      s.toList = before ++ (trimSpace s).toList ++ after := by
  refine ⟨s.toList.takeWhile isSpace, ((s.toList.dropWhile isSpace).reverse.takeWhile isSpace).reverse,
    fun c hc => List.mem_takeWhile_imp hc,
    fun c hc => List.mem_takeWhile_imp (List.mem_reverse.mp hc), ?_⟩
  have hright : (trimSpace s).toList ++
      ((s.toList.dropWhile isSpace).reverse.takeWhile isSpace).reverse = s.toList.dropWhile isSpace := by
    rw [trimSpace, String.toList_ofList, ← List.reverse_append, List.takeWhile_append_dropWhile,
      List.reverse_reverse]
  rw [List.append_assoc, hright, List.takeWhile_append_dropWhile]

/-- The signs of the fields. -/
def fieldChars : List Char := '*' :: (digits ++ [',', '-', '/'])

theorem IsCronField.chars {field : List Char} (h : IsCronField field) :
    field ≠ [] ∧ ∀ c ∈ field, c ∈ fieldChars := by
  rcases h with rfl | ⟨step, ⟨-, hstep⟩, rfl⟩ | ⟨hne, hchars⟩
  · exact ⟨by simp, by simp [fieldChars]⟩
  · refine ⟨by simp, ?_⟩
    rw [List.forall_mem_cons, List.forall_mem_cons]
    exact ⟨by decide, by decide,
      fun c hc => List.mem_cons_of_mem _ (List.mem_append_left _ (hstep c hc))⟩
  · exact ⟨hne, fun c hc => List.mem_cons_of_mem _ (hchars c hc)⟩

theorem isSpace_fieldChars {c : Char} (h : c ∈ fieldChars) : isSpace c = false := by
  have hall : fieldChars.all (fun c => isSpace c = false) = true := by decide
  exact of_decide_eq_true (List.all_eq_true.mp hall c h)

theorem isSpace_spaces {c : Char} (h : c ∈ spaces) : isSpace c = true := by
  have hall : spaces.all (fun c => isSpace c = true) = true := by decide
  exact of_decide_eq_true (List.all_eq_true.mp hall c h)

/-- The parser cuts a schedule into the fields of the regular expression. -/
theorem fields_of_cronSchedule {s : String} (h : cronSchedule s = true) :
    ∀ field ∈ fieldsFunc isSpace s.toList, IsCronField field := by
  obtain ⟨first, rest, hfirst, -, hrest, htext⟩ := cronSchedule_iff.mp h
  obtain ⟨before, after, hbefore, hafter, hparts⟩ := trimSpace_parts s
  have hfield {field : List Char} (hfield : IsCronField field) :
      field ≠ [] ∧ ∀ c ∈ field, isSpace c = false :=
    ⟨hfield.chars.1, fun c hc => isSpace_fieldChars (hfield.chars.2 c hc)⟩
  rw [hparts, TextFields.fieldsFunc_trim hbefore hafter, htext,
    TextFields.fieldsFunc_chain (hfield hfirst) fun r hr => ⟨⟨(hrest r hr).1.1,
      fun c hc => isSpace_spaces ((hrest r hr).1.2 c hc)⟩, hfield (hrest r hr).2⟩, List.forall_mem_cons]
  refine ⟨hfirst, fun field hmem => ?_⟩
  obtain ⟨r, hr, rfl⟩ := List.mem_map.mp hmem
  exact (hrest r hr).2

theorem isDigit_digits {c : Char} (h : c ∈ digits) : c.isDigit = true := by
  have hall : digits.all (fun c => c.isDigit = true) = true := by decide
  exact of_decide_eq_true (List.all_eq_true.mp hall c h)

theorem IsCronField.isFieldText {field : List Char} (h : IsCronField field) : IsFieldText field := by
  rcases h with rfl | ⟨step, ⟨-, hstep⟩, rfl⟩ | ⟨-, hchars⟩
  · intro expr hexpr
    rw [TextFields.fieldsFunc_field (by simp) (by simp), List.mem_singleton] at hexpr
    exact .inr ⟨none, by simp, hexpr⟩
  · have hcomma : ∀ c ∈ '*' :: '/' :: step, decide (c = ',') = false := by
      rw [List.forall_mem_cons, List.forall_mem_cons]
      refine ⟨by decide, by decide, fun c hc => ?_⟩
      rw [decide_eq_false_iff_not]
      rintro rfl
      exact absurd (hstep ',' hc) (by decide)
    intro expr hexpr
    rw [TextFields.fieldsFunc_field (by simp) hcomma, List.mem_singleton] at hexpr
    exact .inr ⟨some step, by simpa using fun c hc => isDigit_digits (hstep c hc), hexpr⟩
  · intro expr hexpr
    left
    intro c hc
    obtain ⟨hmem, hcomma⟩ := (TextFields.mem_of_mem_fieldsFunc hexpr).2 c hc
    have hall : (digits ++ [',', '-', '/']).all (fun c => c = ',' ∨ isRangeChar c = true) = true := by
      decide
    have hchar := of_decide_eq_true (List.all_eq_true.mp hall c (hchars c hmem))
    exact hchar.resolve_left (of_decide_eq_false hcomma)

theorem chars_of_cronSchedule {s : String} (h : cronSchedule s = true) :
    s.toList ≠ [] ∧ ∀ c ∈ s.toList, isSpace c = true ∨ c ∈ fieldChars := by
  obtain ⟨first, rest, hfirst, -, hrest, htext⟩ := cronSchedule_iff.mp h
  obtain ⟨before, after, hbefore, hafter, hparts⟩ := trimSpace_parts s
  rw [hparts, htext]
  constructor
  · simp [hfirst.chars.1]
  · intro c hc
    simp only [List.mem_append, List.mem_flatMap] at hc
    rcases hc with (hc | hc | ⟨r, hr, hc | hc⟩) | hc
    · exact .inl (hbefore c hc)
    · exact .inr (hfirst.chars.2 c hc)
    · exact .inl (isSpace_spaces ((hrest r hr).1.2 c hc))
    · exact .inr ((hrest r hr).2.chars.2 c hc)
    · exact .inl (hafter c hc)

/-- No time zone and no name: the fields are all there is. -/
theorem parse_of_cronSchedule (named : Named) {s : String} (h : cronSchedule s = true) :
    parse named s.toList =
      match parseFields s.toList with
      | none => .error .err
      | some schedule => .ok (.spec schedule) := by
  obtain ⟨hne, hchars⟩ := chars_of_cronSchedule h
  have hletter {c : Char} (hc : isSpace c = false ∧ c ∉ fieldChars) : c ∉ s.toList := by
    intro hmem
    rcases hchars c hmem with hspace | hfield
    · exact Bool.false_ne_true (hc.1.symm.trans hspace)
    · exact hc.2 hfield
  have hzone : ¬(['T', 'Z', '='] <+: s.toList ∨ ['C', 'R', 'O', 'N', '_', 'T', 'Z', '='] <+: s.toList) := by
    rintro (hstarts | hstarts)
    · exact hletter (by decide) (hstarts.subset (List.mem_cons_self : 'T' ∈ _))
    · exact hletter (by decide) (hstarts.subset (List.mem_cons_self : 'C' ∈ _))
  have hname : ¬['@'] <+: s.toList := fun hstarts =>
    hletter (by decide) (hstarts.subset (List.mem_cons_self : '@' ∈ _))
  rw [parse, if_neg hne, if_neg hzone, parseSpec]
  exact if_neg hname

/-- `AddFunc` can parse the schedule. -/
def parses (named : Named) (schedule : String) : Bool := (parse named schedule.toList).isOk

theorem parses_iff (named : Named) {s : String} (h : cronSchedule s = true) :
    parses named s = true ↔ InRange s.toList := by
  rw [← parseFields_isSome_iff fun field hmem => (fields_of_cronSchedule h field hmem).isFieldText,
    parses, parse_of_cronSchedule named h]
  cases parseFields s.toList <;> simp [Except.isOk, Except.toBool]

/-! ## What the scheduler has -/

/-- The entries of the scheduler for a job. -/
def entriesFor (e : Instances ID CronJob) (id : ID) : ℕ := e.running.countP fun r => r.2.id = id

/-- `addJob` gives the job an entry, and after a `Reload` an enabled one has exactly one, whatever
was called before. -/
structure Registered (named : Named) (job : CronJob) : Prop where
  added : ∀ e, Cron.addJob (parses named) e job = e.start job.id job
  single : job.enabled = true → ∀ rows calls,
    entriesFor ((cron (parses named)).reload ((cron (parses named)).state rows calls) job) job.id = 1

/-- `Start` and any calls leave one entry for each job that runs, and none for the others. -/
theorem entriesFor_state (named : Named) (rows : Option (Table CronJob)) (calls : List (Call CronJob))
    (id : ID) : entriesFor ((cron (parses named)).state rows calls) id =
      if (effective (cron (parses named)).runs (lastGiven rows calls) id).isSome then 1 else 0 := by
  have howns := (cron_disciplined (parses named)).state_owns rows calls
  refine howns.countP_running (fun id job hjob => ?_) id
  exact givenByKey_lastGiven rows calls id job (Option.filter_eq_some_iff.mp hjob).1

/-- A `Reload` is one more call. -/
theorem state_reload (named : Named) (rows : Option (Table CronJob)) (calls : List (Call CronJob))
    (job : CronJob) : (cron (parses named)).reload ((cron (parses named)).state rows calls) job =
      (cron (parses named)).state rows (calls ++ [.reload job]) := by
  rw [Engine.state, Engine.state, List.foldl_append]
  rfl

theorem lastGiven_reload (rows : Option (Table CronJob)) (calls : List (Call CronJob))
    (job : CronJob) : lastGiven rows (calls ++ [.reload job]) job.id = some job := by
  rw [lastGiven, List.foldl_append]
  exact Function.update_self ..

/-- After a `Reload` an enabled job has an entry if its schedule can be parsed. -/
theorem entriesFor_reload (named : Named) (rows : Option (Table CronJob))
    (calls : List (Call CronJob)) {job : CronJob} (henabled : job.enabled = true) :
    entriesFor ((cron (parses named)).reload ((cron (parses named)).state rows calls) job) job.id =
      if parses named job.schedule then 1 else 0 := by
  have hruns : (cron (parses named)).runs job = parses named job.schedule := by
    change (job.enabled && parses named job.schedule) = _
    rw [henabled, Bool.true_and]
  rw [state_reload, entriesFor_state, effective, lastGiven_reload, Option.filter_some, hruns]
  cases parses named job.schedule <;> rfl

theorem addJob_eq_start_iff (named : Named) (e : Instances ID CronJob) (job : CronJob) :
    Cron.addJob (parses named) e job = e.start job.id job ↔ parses named job.schedule = true := by
  rw [Cron.addJob]
  constructor
  · intro h
    by_contra hparses
    rw [if_neg hparses] at h
    exact absurd (congrArg Instances.next h) (Nat.lt_succ_self e.next).ne
  · exact fun hparses => if_pos hparses

/-- A job whose schedule is let through runs if the schedule has six fields in their bounds. -/
theorem registered_iff (named : Named) {job : CronJob} (hvalid : cronSchedule job.schedule = true) :
    Registered named job ↔ InRange job.schedule.toList := by
  rw [← parses_iff named hvalid]
  constructor
  · intro h
    exact (addJob_eq_start_iff named Instances.empty job).mp (h.added _)
  · intro hparses
    constructor
    · exact fun e => (addJob_eq_start_iff named e job).mpr hparses
    · intro henabled rows calls
      rw [entriesFor_reload named rows calls henabled, if_pos hparses]

/-! The schedule that the form of the web interface starts with, of five fields, and one of the
engine's tests. -/

def noNames : Named := ⟨fun _ => false, fun _ => none⟩

def jobAt (schedule : String) : CronJob := ⟨"1", "job", schedule, "command", "true", "", "", true⟩

theorem cronSchedule_everyFive :
    cronSchedule "*/5 * * * *" = true ∧ cronSchedule "*/5 * * * * *" = true := by
  decide +kernel

theorem parses_everyFive :
    parses noNames "*/5 * * * *" = false ∧ parses noNames "*/5 * * * * *" = true := by
  decide +kernel

/-- It is let through, and a `Reload` leaves no entry for it. -/
theorem five_fields_unregistered : cronSchedule (jobAt "*/5 * * * *").schedule = true ∧
    ¬Registered noNames (jobAt "*/5 * * * *") ∧
      entriesFor ((cron (parses noNames)).reload ((cron (parses noNames)).state none [])
        (jobAt "*/5 * * * *")) "1" = 0 := by
  have hnone := entriesFor_reload noNames none []
    (show (jobAt "*/5 * * * *").enabled = true from rfl)
  rw [jobAt, parses_everyFive.1] at hnone
  refine ⟨cronSchedule_everyFive.1, fun h => ?_, hnone⟩
  exact Nat.zero_ne_one (hnone.symm.trans (h.single rfl none []))

theorem registered_six_fields : InRange "*/5 * * * * *".toList ∧
    Registered noNames (jobAt "*/5 * * * * *") := by
  have hrange := (parses_iff noNames cronSchedule_everyFive.2).mp parses_everyFive.2
  have hvalid : cronSchedule (jobAt "*/5 * * * * *").schedule = true := cronSchedule_everyFive.2
  exact ⟨hrange, (registered_iff noNames hvalid).mpr hrange⟩

end NetBerth.CronSchedules
