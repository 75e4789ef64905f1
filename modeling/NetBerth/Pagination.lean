import NetBerth.CronParser
import NetBerth.ListPages
import NetBerth.ModuleLoading

/-!
# Listing a table page by page

The lists of forward rules, proxy rules and DDNS configurations read the page and its size from
the query string and ask the database for the rows from an offset on, the newest first. The offset
is a product of 64 bits, and rows created at the same time come in any order, in another one for
every query. So a page is what its number says only when no two rows have the same time and the
product does not wrap into the table.
-/
namespace NetBerth.Pagination
open SqlTable SqlCursor Rules ModuleLoading ListPages
open Keyed (key)

/-! ## The query -/

inductive Driver where
  | sqlite
  | postgres
  deriving DecidableEq, Repr

/-- How many rows an `OFFSET` skips; only one of the databases takes a negative one. -/
def skipped (d : Driver) (offset : ℤ) : Option ℕ :=
  if 0 ≤ offset then some offset.toNat
  else match d with
    | .sqlite => some 0
    | .postgres => none

/-- Digits in front that already exceed 64 bits, or a numeral beyond the integers. -/
def overflows (digits : List Char) : Bool :=
  (IPAddress.atoi digits).isSome ||
    2 ^ 64 ≤ IPAddress.value 10 ((digits.takeWhile Char.isDigit).map fun c => c.toNat - 48)

/-- The value of `strconv.Atoi` when its error is ignored: the nearest integer for a number out of
range, otherwise zero. -/
def atoiValue (s : List Char) : ℤ :=
  match CronParser.atoi s with
  | some n => n
  | none =>
    if s.head? = some '-' then if overflows s.tail then -2 ^ 63 else 0
    else if overflows (if s.head? = some '+' then s.tail else s) then 2 ^ 63 - 1
    else 0

structure PaginatedResponse (α : Type*) where
  data : List α
  total : ℤ
  page : ℤ
  pageSize : ℤ
  totalPages : ℤ
  deriving DecidableEq, Repr

def paginated {α : Type*} (data : List α) (total page pageSize : ℤ) : PaginatedResponse α :=
  let totalPages := total.tdiv pageSize
  let totalPages := if total.tmod pageSize ≠ 0 then totalPages + 1 else totalPages
  ⟨data, total, page, pageSize, totalPages⟩

section
variable {ρ κ α τ : Type*} [Keyed ρ κ] [LinearOrder τ]

/-- The three `List` handlers: `o` is the order in which the database answers this query. An error
is the text of a response with status 500. -/
def list (d : Driver) (scan : ρ → Option α) (t : Table ρ) (o : List ρ)
    (pageText sizeText : List Char) : Except String (PaginatedResponse α) :=
  let page := atoiValue pageText
  let pageSize := atoiValue sizeText
  let page := if page < 1 then 1 else page
  let pageSize := if pageSize < 1 ∨ 100 < pageSize then 20 else pageSize
  match skipped d (((page - 1) * pageSize).bmod (2 ^ 64)) with
  | none => .error "query failed"
  | some offset =>
    match ((o.drop offset).take pageSize.toNat).mapM scan with
    | none => .error "scan failed"
    | some data => .ok (paginated data t.rows.length page pageSize)

/-! ## Pages of one order -/

/-- Whatever order the database answers in, a page that is asked for has the rows in the places of
this page in the order `o`. -/
def Serves (d : Driver) (scan : ρ → Option α) (createdAt : ρ → τ) (t : Table ρ) (o : List ρ)
    (p size : ℕ) : Prop :=
  ∀ (pageText sizeText : List Char) (answer : List ρ), CronParser.atoi pageText = some (p : ℤ) →
    CronParser.atoi sizeText = some (size : ℤ) → Ordered createdAt t.rows answer →
    ∃ data, (page size o (p - 1)).mapM scan = some data ∧
      list d scan t answer pageText sizeText =
        .ok ⟨data, t.rows.length, p, size, pageCount size t.rows.length⟩

def dataOf : Except String (PaginatedResponse α) → List α
  | .ok response => response.data
  | .error _ => []

/-- What a client finds that walks over the pages, and on a page after the last one. -/
def Walked (d : Driver) (scan : ρ → Option α) (createdAt : ρ → τ) (t : Table ρ) (p size : ℕ) :
    Prop :=
  ∀ (texts : ℕ → List Char) (sizeText : List Char) (answers : ℕ → List ρ),
    (∀ q, (q = p ∨ 1 ≤ q ∧ q ≤ pageCount size t.rows.length) →
      CronParser.atoi (texts q) = some (q : ℤ)) →
    CronParser.atoi sizeText = some (size : ℤ) → (∀ q, Ordered createdAt t.rows (answers q)) →
    ∃ (o : List ρ) (records : List α), o.Perm t.rows ∧ o.mapM scan = some records ∧
      (List.range (pageCount size t.rows.length)).flatMap
        (fun k => dataOf (list d scan t (answers (k + 1)) (texts (k + 1)) sizeText)) = records ∧
      (pageCount size t.rows.length < p →
        ∃ response, list d scan t (answers p) (texts p) sizeText = .ok response ∧
          response.data = [])

/-- The page `p` and the pages of a walk over the table are pages of one order, and a walk finds
every row once. -/
def Covers (d : Driver) (scan : ρ → Option α) (createdAt : ρ → τ) (t : Table ρ) (p size : ℕ) :
    Prop :=
  (∃ o, Ordered createdAt t.rows o ∧
    ∀ q, (q = p ∨ 1 ≤ q ∧ q ≤ pageCount size t.rows.length) → Serves d scan createdAt t o q size) ∧
  Walked d scan createdAt t p size

/-- The page is not refused, and it is not one that the product of 64 bits leads to. -/
def Reached (d : Driver) (n p size : ℕ) : Prop :=
  (p - 1) * size < 2 ^ 63 ∨
    ∃ offset, skipped d ((((p - 1) * size : ℕ) : ℤ).bmod (2 ^ 64)) = some offset ∧ n ≤ offset

/-! ## What one request gets -/

theorem skipped_of_lt {d : Driver} {n : ℕ} (h : n < 2 ^ 63) :
    skipped d ((n : ℤ).bmod (2 ^ 64)) = some n := by
  have hexact : (n : ℤ).bmod (2 ^ 64) = n := Int.bmod_eq_of_le (by omega) (by omega)
  unfold skipped
  rw [hexact, if_pos (Int.natCast_nonneg n), Int.toNat_natCast]

theorem atoiValue_of_atoi {s : List Char} {n : ℤ} (h : CronParser.atoi s = some n) :
    atoiValue s = n := by
  rw [atoiValue, h]

/-- Every number of 63 bits is asked for by some text. -/
theorem atoi_toDigits {n : ℕ} (h : n < 2 ^ 63) :
    CronParser.atoi (Nat.toDigits 10 n) = some (n : ℤ) := by
  have hdigits : ∀ c ∈ Nat.toDigits 10 n, c.isDigit = true := fun c hc =>
    Nat.isDigit_of_mem_toDigits (by decide) (by decide) hc
  have hvalue : IPAddress.atoi (Nat.toDigits 10 n) = some n := by
    refine CronParser.atoi_eq_some.mpr ⟨Nat.toDigits_ne_nil, hdigits, ?_⟩
    rw [IPAddress.value, List.foldl_map]
    have hten : Nat.ofDigitChars 10 (Nat.toDigits 10 n) 0 = n := Nat.ofDigitChars_ten_toDigits
    rw [Nat.ofDigitChars_eq_foldl] at hten
    simp only [mul_comm] at hten ⊢
    exact hten
  rw [CronParser.atoi_digits hdigits, hvalue, Option.bind_some, if_pos h]

theorem paginated_eq {data : List α} {n p size : ℕ} :
    paginated data n p size = ⟨data, n, p, size, pageCount size n⟩ := by
  rw [paginated, pageCount, ← Int.ofNat_tdiv, ← Int.ofNat_tmod]
  by_cases h : n % size = 0
  · rw [h]
    simp
  · have hcast : ((n % size : ℕ) : ℤ) ≠ 0 := Nat.cast_ne_zero.mpr h
    rw [if_pos hcast, if_pos h, Nat.cast_succ]

theorem list_eq_ok_iff {d : Driver} {scan : ρ → Option α} {t : Table ρ} {o : List ρ}
    {pageText sizeText : List Char} {p size : ℕ} (hpage : CronParser.atoi pageText = some (p : ℤ))
    (hsize : CronParser.atoi sizeText = some (size : ℤ)) (hp : 1 ≤ p) (hlow : 1 ≤ size)
    (hhigh : size ≤ 100) {data : List α} :
    list d scan t o pageText sizeText =
        .ok ⟨data, t.rows.length, p, size, pageCount size t.rows.length⟩ ↔
      ∃ offset, skipped d ((((p - 1) * size : ℕ) : ℤ).bmod (2 ^ 64)) = some offset ∧
        ((o.drop offset).take size).mapM scan = some data := by
  have hproduct : ((p : ℤ) - 1) * size = (((p - 1) * size : ℕ) : ℤ) := by
    push_cast [Nat.cast_sub hp]
    rfl
  unfold list
  rw [atoiValue_of_atoi hpage, atoiValue_of_atoi hsize]
  dsimp only
  rw [if_neg (by omega), if_neg (by omega), hproduct, Int.toNat_natCast]
  generalize skipped d ((((p - 1) * size : ℕ) : ℤ).bmod (2 ^ 64)) = offset
  cases offset with
  | none => simp
  | some offset =>
    simp only [Option.some.injEq, exists_eq_left']
    cases ((o.drop offset).take size).mapM scan with
    | none => simp
    | some records => simp [paginated_eq]

/-! ## When pages are pages of one order -/

variable {d : Driver} {scan : ρ → Option α} {createdAt : ρ → τ} {t : Table ρ} {p size : ℕ}

/-- Where there is only one order and all rows are read, a page that is reached is right. -/
theorem serves_of_reached {o : List ρ} (hlow : 1 ≤ size) (hhigh : size ≤ 100)
    (hrows : t.rows.length < 2 ^ 63) (hscan : ∀ row ∈ t.rows, (scan row).isSome)
    (ho : Ordered createdAt t.rows o) (honly : ∀ a, Ordered createdAt t.rows a → a = o)
    (hp : 1 ≤ p) (hreached : Reached d t.rows.length p size) :
    Serves d scan createdAt t o p size := by
  intro pageText sizeText answer hpage hsize hanswer
  obtain rfl := honly answer hanswer
  obtain ⟨data, hdata⟩ : ∃ data, (page size answer (p - 1)).mapM scan = some data :=
    exists_mapM_iff.mpr fun row hrow => hscan row (ho.1.mem_iff.mp (mem_of_mem_page hrow))
  refine ⟨data, hdata, (list_eq_ok_iff hpage hsize hp hlow hhigh).mpr ?_⟩
  have hlength := ho.1.length_eq
  by_cases hsmall : (p - 1) * size < 2 ^ 63
  · exact ⟨_, skipped_of_lt hsmall, hdata⟩
  · obtain ⟨offset, hoffset, hbeyond⟩ := hreached.resolve_left hsmall
    refine ⟨offset, hoffset, ?_⟩
    rw [page_eq_nil (by omega)] at hdata
    rw [List.drop_eq_nil_of_le (by omega), List.take_nil, hdata]

theorem mem_walk_iff (hlow : 1 ≤ size) {q : ℕ} (hq : 1 ≤ q) :
    q ≤ pageCount size t.rows.length ↔ (q - 1) * size < t.rows.length := by
  rw [← lt_pageCount_iff hlow]
  omega

theorem reached_of_le {q : ℕ} (hlow : 1 ≤ size) (hrows : t.rows.length < 2 ^ 63) (hq : 1 ≤ q)
    (hwalk : q ≤ pageCount size t.rows.length) : Reached d t.rows.length q size :=
  .inl (((mem_walk_iff hlow hq).mp hwalk).trans hrows)

theorem mapM_append_eq {l l' : List ρ} {records records' : List α} (h : l.mapM scan = some records)
    (h' : l'.mapM scan = some records') : (l ++ l').mapM scan = some (records ++ records') := by
  rw [mapM_eq_some_iff] at *
  rw [List.map_append, h, h', List.map_append]

/-- Pages that are read one by one are read as the list they make. -/
theorem mapM_flatMap {pages : ℕ → List ρ} {records : ℕ → List α} {n : ℕ}
    (h : ∀ k < n, (pages k).mapM scan = some (records k)) :
    ((List.range n).flatMap pages).mapM scan = some ((List.range n).flatMap records) := by
  induction n with
  | zero => rfl
  | succ n ih =>
    rw [List.range_succ, List.flatMap_append, List.flatMap_append, List.flatMap_singleton,
      List.flatMap_singleton]
    exact mapM_append_eq (ih fun k hk => h k (hk.trans n.lt_succ_self)) (h n n.lt_succ_self)

theorem walked_of_serves {o : List ρ} (hlow : 1 ≤ size) (ho : Ordered createdAt t.rows o)
    (hserves : ∀ q, (q = p ∨ 1 ≤ q ∧ q ≤ pageCount size t.rows.length) →
      Serves d scan createdAt t o q size) : Walked d scan createdAt t p size := by
  intro texts sizeText answers htexts hsize hanswers
  refine ⟨o, _, ho.1, ?_, rfl, ?_⟩
  · have hpages : ((List.range (pageCount size t.rows.length)).flatMap (page size o)).mapM scan =
        some ((List.range (pageCount size t.rows.length)).flatMap fun k =>
          dataOf (list d scan t (answers (k + 1)) (texts (k + 1)) sizeText)) := by
      apply mapM_flatMap
      intro k hk
      have hq : k + 1 = p ∨ 1 ≤ k + 1 ∧ k + 1 ≤ pageCount size t.rows.length := by omega
      obtain ⟨data, hdata, hlist⟩ := hserves (k + 1) hq _ _ _ (htexts _ hq) hsize (hanswers _)
      rw [hlist]
      exact hdata
    rw [← ho.1.length_eq, flatMap_pages hlow, ho.1.length_eq] at hpages
    exact hpages
  · intro hbeyond
    obtain ⟨data, hdata, hlist⟩ := hserves p (.inl rfl) _ _ _ (htexts p (.inl rfl)) hsize (hanswers p)
    refine ⟨_, hlist, ?_⟩
    have hempty : o.length ≤ (p - 1) * size := by
      rw [ho.1.length_eq]
      by_contra hinside
      have hle := (mem_walk_iff (t := t) hlow (by omega : 1 ≤ p)).mpr (not_le.mp hinside)
      omega
    rw [page_eq_nil hempty] at hdata
    exact (Option.some.inj hdata).symm

/-- The request for a page reads the same records from the answer as from the one order. -/
theorem exists_offset {o : List ρ} {q : ℕ} (hlow : 1 ≤ size) (hhigh : size ≤ 100) (hq : 1 ≤ q)
    (hlt : q < 2 ^ 63) (h : Serves d scan createdAt t o q size) {a : List ρ}
    (ha : Ordered createdAt t.rows a) :
    ∃ data offset, (page size o (q - 1)).mapM scan = some data ∧
      skipped d ((((q - 1) * size : ℕ) : ℤ).bmod (2 ^ 64)) = some offset ∧
        ((a.drop offset).take size).mapM scan = some data := by
  have hpage := atoi_toDigits hlt
  have hsize := atoi_toDigits (show size < 2 ^ 63 by omega)
  obtain ⟨data, hdata, hlist⟩ := h _ _ a hpage hsize ha
  obtain ⟨offset, hoffset, hrecords⟩ := (list_eq_ok_iff hpage hsize hq hlow hhigh).mp hlist
  exact ⟨data, offset, hdata, hoffset, hrecords⟩

theorem exists_data {o : List ρ} {k : ℕ} (hlow : 1 ≤ size) (hhigh : size ≤ 100)
    (hrows : t.rows.length < 2 ^ 63) (hk : k < pageCount size t.rows.length)
    (h : Serves d scan createdAt t o (k + 1) size) {a : List ρ}
    (ha : Ordered createdAt t.rows a) :
    ∃ data, (page size o k).mapM scan = some data ∧ (page size a k).mapM scan = some data := by
  have hinside : k * size < t.rows.length := (lt_pageCount_iff hlow).mp hk
  have hle : k ≤ k * size := Nat.le_mul_of_pos_right k hlow
  obtain ⟨data, offset, hdata, hoffset, hrecords⟩ := exists_offset hlow hhigh (by omega)
    (by omega) h ha
  rw [Nat.add_sub_cancel] at hdata hoffset
  rw [skipped_of_lt (hinside.trans hrows)] at hoffset
  obtain rfl := Option.some.inj hoffset
  exact ⟨data, hdata, hrecords⟩

theorem isSome_of_serves {o : List ρ} (hlow : 1 ≤ size) (hhigh : size ≤ 100)
    (hrows : t.rows.length < 2 ^ 63) (ho : Ordered createdAt t.rows o)
    (h : ∀ k < pageCount size t.rows.length, Serves d scan createdAt t o (k + 1) size) :
    ∀ row ∈ t.rows, (scan row).isSome := by
  intro row hrow
  obtain ⟨k, hk, hmem⟩ := exists_mem_page hlow (ho.1.mem_iff.mpr hrow)
  rw [ho.1.length_eq] at hk
  obtain ⟨data, hdata, -⟩ := exists_data hlow hhigh hrows hk (h k hk) ho
  exact exists_mapM_iff.mp ⟨data, hdata⟩ row hmem

/-- Records keep the key of their row. -/
theorem eq_of_mapM {keyOf : α → κ} (hkey : ∀ {row r}, scan row = some r → keyOf r = key row)
    {l l' : List ρ} {data : List α} (hl : ∀ row ∈ l, row ∈ t.rows) (hl' : ∀ row ∈ l', row ∈ t.rows)
    (h : l.mapM scan = some data) (h' : l'.mapM scan = some data) : l = l' := by
  have hsame : l.map scan = l'.map scan :=
    (mapM_eq_some_iff.mp h).trans (mapM_eq_some_iff.mp h').symm
  have hlength : l.length = l'.length := by simpa using congrArg List.length hsame
  apply List.ext_getElem hlength
  intro i hi hi'
  obtain ⟨r, hr⟩ := Option.isSome_iff_exists.mp
    (exists_mapM_iff.mp ⟨data, h⟩ l[i] (List.getElem_mem hi))
  have hscan := List.getElem_of_eq hsame (by simpa using hi : i < (l.map scan).length)
  rw [List.getElem_map, List.getElem_map] at hscan
  have hkeys : key l[i] = key l'[i] := by
    rw [← hkey hr, ← hkey (hscan ▸ hr)]
  exact Table.eq_of_key (hl _ (List.getElem_mem hi)) (hl' _ (List.getElem_mem hi')) hkeys

theorem nodup_of_serves {o : List ρ} {keyOf : α → κ}
    (hkey : ∀ {row r}, scan row = some r → keyOf r = key row) (hlow : 1 ≤ size)
    (hhigh : size ≤ 100) (hrows : t.rows.length < 2 ^ 63) (ho : Ordered createdAt t.rows o)
    (h : ∀ k < pageCount size t.rows.length, Serves d scan createdAt t o (k + 1) size) :
    (t.rows.map createdAt).Nodup := by
  have honly : ∀ a, Ordered createdAt t.rows a → a = o := by
    intro a ha
    apply eq_of_page_eq hlow (ha.1.length_eq.trans ho.1.length_eq.symm)
    intro k hk
    rw [ha.1.length_eq] at hk
    obtain ⟨data, hdata, hrecords⟩ := exists_data hlow hhigh hrows hk (h k hk) ha
    exact eq_of_mapM hkey (fun row hrow => ha.1.mem_iff.mp (mem_of_mem_page hrow))
      (fun row hrow => ho.1.mem_iff.mp (mem_of_mem_page hrow)) hrecords hdata
  exact nodup_of_unique (List.Nodup.of_map key t.nodup) fun a a' ha ha' =>
    (honly a ha).trans (honly a' ha').symm

theorem reached_of_serves {o : List ρ} (hlow : 1 ≤ size) (hhigh : size ≤ 100)
    (hrows : t.rows.length < 2 ^ 63) (hp : 1 ≤ p) (hlt : p < 2 ^ 63)
    (ho : Ordered createdAt t.rows o) (h : Serves d scan createdAt t o p size) :
    Reached d t.rows.length p size := by
  by_cases hsmall : (p - 1) * size < 2 ^ 63
  · exact .inl hsmall
  · obtain ⟨data, offset, hdata, hoffset, hrecords⟩ := exists_offset hlow hhigh hp hlt h ho
    have hlength := ho.1.length_eq
    rw [page_eq_nil (by omega)] at hdata
    obtain rfl := Option.some.inj hdata
    have hnone : (o.drop offset).take size = [] := by
      simpa using mapM_eq_some_iff.mp hrecords
    refine .inr ⟨offset, hoffset, ?_⟩
    rw [List.take_eq_nil_iff, List.drop_eq_nil_iff] at hnone
    omega

/-- All rows are read, no two have the same time, and the page is reached. -/
structure Coverable (d : Driver) (scan : ρ → Option α) (createdAt : ρ → τ) (t : Table ρ)
    (p size : ℕ) : Prop where
  scanned : ∀ row ∈ t.rows, (scan row).isSome
  distinct : (t.rows.map createdAt).Nodup
  reached : Reached d t.rows.length p size

theorem covers_iff {keyOf : α → κ} (hkey : ∀ {row r}, scan row = some r → keyOf r = key row)
    (hrows : t.rows.length < 2 ^ 63) (hp : 1 ≤ p) (hlt : p < 2 ^ 63) (hlow : 1 ≤ size)
    (hhigh : size ≤ 100) :
    Covers d scan createdAt t p size ↔ Coverable d scan createdAt t p size := by
  constructor
  · rintro ⟨⟨o, ho, hserves⟩, -⟩
    have hwalk : ∀ k < pageCount size t.rows.length, Serves d scan createdAt t o (k + 1) size :=
      fun k hk => hserves (k + 1) (.inr ⟨by omega, hk⟩)
    exact ⟨isSome_of_serves hlow hhigh hrows ho hwalk,
      nodup_of_serves hkey hlow hhigh hrows ho hwalk,
      reached_of_serves hlow hhigh hrows hp hlt ho (hserves p (.inl rfl))⟩
  · intro h
    obtain ⟨o, ho⟩ := exists_ordered createdAt t.rows
    have hserves : ∀ q, (q = p ∨ 1 ≤ q ∧ q ≤ pageCount size t.rows.length) →
        Serves d scan createdAt t o q size := by
      rintro q (rfl | ⟨hq, hwalk⟩)
      · exact serves_of_reached hlow hhigh hrows h.scanned ho (fun a ha => ha.eq h.distinct ho) hp
          h.reached
      · exact serves_of_reached hlow hhigh hrows h.scanned ho (fun a ha => ha.eq h.distinct ho) hq
          (reached_of_le hlow hrows hq hwalk)
    exact ⟨⟨o, ho, hserves⟩, walked_of_serves hlow ho hserves⟩

end

/-! ## The three lists -/

/-- A row or a record with its times, which every table has and no engine reads. -/
structure Dated (ρ τ : Type*) where
  row : ρ
  createdAt : τ
  updatedAt : τ
  deriving DecidableEq, Repr

instance instKeyedDated {ρ κ τ : Type*} [Keyed ρ κ] : Keyed (Dated ρ τ) κ := ⟨fun r => key r.row⟩

def dated {ρ α τ : Type*} (scan : ρ → Option α) (c : Dated ρ τ) : Option (Dated α τ) :=
  (scan c.row).map fun r => ⟨r, c.createdAt, c.updatedAt⟩

section
variable {τ : Type*}

/-- The rules of a list carry the entries of their own lists. -/
def scanForwardList (db : Content) : Dated ForwardColumns τ → Option (Dated ForwardRule τ) :=
  dated fun c => (scanForwardRow c).map fun r => ⟨r, db.forwardListsOf r.id⟩

def scanProxyList (db : Content) : Dated ProxyColumns τ → Option (Dated ProxyRule τ) :=
  dated fun c => (scanProxyRow c).map fun r => ⟨r, db.proxyListsOf r.id⟩

def scanDDNSList (json : Unmarshal) : Dated DDNSColumns τ → Option (Dated DDNSConfig τ) :=
  dated (scanDDNSConfig json)

theorem key_of_dated {ρ κ α : Type*} [Keyed ρ κ] {scan : ρ → Option α} {keyOf : α → κ}
    (hkey : ∀ {row r}, scan row = some r → keyOf r = key row) {c : Dated ρ τ} {r : Dated α τ}
    (h : dated scan c = some r) : keyOf r.row = key c := by
  obtain ⟨record, hrecord, rfl⟩ := Option.map_eq_some_iff.mp h
  exact hkey hrecord

theorem key_scanForwardList {db : Content} {c : Dated ForwardColumns τ} {r : Dated ForwardRule τ}
    (h : scanForwardList db c = some r) : r.row.id = key c := by
  have hkey : ∀ {row : ForwardColumns} {r : ForwardRule}, (scanForwardRow row).map
      (fun r => ForwardRule.mk r (db.forwardListsOf r.id)) = some r → r.id = key row := by
    intro row r hr
    obtain ⟨record, hrecord, rfl⟩ := Option.map_eq_some_iff.mp hr
    exact id_of_scanForwardRow hrecord
  exact key_of_dated hkey h

theorem key_scanProxyList {db : Content} {c : Dated ProxyColumns τ} {r : Dated ProxyRule τ}
    (h : scanProxyList db c = some r) : r.row.id = key c := by
  have hkey : ∀ {row : ProxyColumns} {r : ProxyRule}, (scanProxyRow row).map
      (fun r => ProxyRule.mk r (db.proxyListsOf r.id)) = some r → r.id = key row := by
    intro row r hr
    obtain ⟨record, hrecord, rfl⟩ := Option.map_eq_some_iff.mp hr
    exact id_of_scanProxyRow hrecord
  exact key_of_dated hkey h

theorem key_scanDDNSList {json : Unmarshal} {c : Dated DDNSColumns τ} {r : Dated DDNSConfig τ}
    (h : scanDDNSList json c = some r) : r.row.id = key c :=
  key_of_dated (fun hr => id_of_scanDDNSConfig hr) h

variable [LinearOrder τ]

/-- Each of the three lists has the pages of one order, and a walk over them finds every row once,
exactly under the one condition. -/
theorem lists_cover_iff (d : Driver) (db : Content) (json : Unmarshal) {p size : ℕ} (hp : 1 ≤ p)
    (hlt : p < 2 ^ 63) (hlow : 1 ≤ size) (hhigh : size ≤ 100) :
    (∀ t : Table (Dated ForwardColumns τ), t.rows.length < 2 ^ 63 →
      (Covers d (scanForwardList db) Dated.createdAt t p size ↔
        Coverable d (scanForwardList db) Dated.createdAt t p size)) ∧
    (∀ t : Table (Dated ProxyColumns τ), t.rows.length < 2 ^ 63 →
      (Covers d (scanProxyList db) Dated.createdAt t p size ↔
        Coverable d (scanProxyList db) Dated.createdAt t p size)) ∧
    ∀ t : Table (Dated DDNSColumns τ), t.rows.length < 2 ^ 63 →
      (Covers d (scanDDNSList json) Dated.createdAt t p size ↔
        Coverable d (scanDDNSList json) Dated.createdAt t p size) := by
  refine ⟨fun t hrows => ?_, fun t hrows => ?_, fun t hrows => ?_⟩
  · exact covers_iff (fun h => key_scanForwardList h) hrows hp hlt hlow hhigh
  · exact covers_iff (fun h => key_scanProxyList h) hrows hp hlt hlow hhigh
  · exact covers_iff (fun h => key_scanDDNSList h) hrows hp hlt hlow hhigh

def forwardRowOf (id : ID) : ForwardColumns :=
  ⟨id, "", "", id, "tcp", "", 8080, "10.0.0.1", 80, true, 0, true, some "", some ""⟩

/-- Two rules, created at the given times. -/
def twoRules (first second : ℕ) : Table (Dated ForwardColumns ℕ) :=
  ⟨[⟨forwardRowOf "f1", first, first⟩, ⟨forwardRowOf "f2", second, second⟩],
    show ["f1", "f2"].Nodup by decide⟩

theorem second_page_covers :
    Covers .postgres (scanForwardList sampleContent) Dated.createdAt (twoRules 5 7) 2 1 := by
  refine ((lists_cover_iff .postgres sampleContent ⟨fun _ _ => none, fun _ => []⟩ (by decide)
    (by decide) (by decide) (by decide)).1 (twoRules 5 7) (by decide)).mpr ⟨?_, by decide, ?_⟩
  · intro row hrow
    simp only [twoRules, List.mem_cons, List.not_mem_nil, or_false] at hrow
    obtain rfl | rfl := hrow
    · rfl
    · rfl
  · exact .inl (by decide)

/-- Two rules that were created at the same time can both be on the first page. -/
theorem same_time_repeats : ¬∀ (d : Driver) (db : Content) (t : Table (Dated ForwardColumns ℕ))
    (p size : ℕ), 1 ≤ p → p < 2 ^ 63 → 1 ≤ size → size ≤ 100 → t.rows.length < 2 ^ 63 →
      Covers d (scanForwardList db) Dated.createdAt t p size := by
  intro h
  obtain ⟨⟨o, ho, hserves⟩, -⟩ := h .sqlite sampleContent (twoRules 5 5) 1 1 (by decide) (by decide)
    (by decide) (by decide) (by decide)
  have hdistinct : ((twoRules 5 5).rows.map Dated.createdAt).Nodup :=
    nodup_of_serves (fun h => key_scanForwardList h) (by decide) (by decide) (by decide) ho
      fun k hk => hserves (k + 1) (.inr ⟨by omega, hk⟩)
  revert hdistinct
  decide

end

end NetBerth.Pagination
