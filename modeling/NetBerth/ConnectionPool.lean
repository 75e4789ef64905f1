import NetBerth.ResourcePool

/-!
# The database's connections

Each call that reads rules, as the statements it sends: a query takes a
connection and keeps it while its rows are open, `Next` and `Scan` need none of
their own, and the connection goes back when the rows are exhausted or closed.
What the database answers, errors included, is the data of the call, so a
program stands for one way a call can go.

The lists and the bulk loads read the allow and deny lists of a rule while the
rows of the rules are open. The loads of a single rule have closed its row by
then.
-/
namespace NetBerth.ConnectionPool
open Interleaving ResourcePool

/-- `SetMaxOpenConns` in `openSQLite` and `openPostgres`. -/
def maxOpenConns (numCPU : ℕ) : ℕ := max 2 (numCPU - 1)

/-- A query by itself, with that many calls of `Next`: none if it fails, and up
to a failing `Scan` or the end of the rows otherwise. -/
def query (nexts : ℕ) : Program := .acquire :: (List.replicate nexts .work ++ [.release])

/-- The `Next` calls of each of the five reads beside a proxy rule. -/
structure ProxyReads where
  domains : ℕ
  ipWhitelist : ℕ
  ipBlacklist : ℕ
  uaWhitelist : ℕ
  uaBlacklist : ℕ
  deriving DecidableEq, Repr

/-- And of the two reads beside a forward rule. -/
structure ForwardReads where
  whitelist : ℕ
  blacklist : ℕ
  deriving DecidableEq, Repr

def ForwardReads.program (reads : ForwardReads) : Program :=
  query reads.whitelist ++ query reads.blacklist

def ProxyReads.program (reads : ProxyReads) : Program :=
  query reads.domains ++ query reads.ipWhitelist ++ query reads.ipBlacklist ++
    query reads.uaWhitelist ++ query reads.uaBlacklist

/-- The rows of an outer query that were scanned, each with the reads beside
it, and the `Next` that ends the loop; `none` if the query fails. -/
def outer (rows : Option (List Program)) : Program :=
  match rows with
  | none => query 0
  | some rows => .acquire :: (rows.flatMap (fun reads => .work :: reads) ++ [.work, .release])

inductive Request where
  | forwardList (count : ℕ) (rows : Option (List ForwardReads))
  | proxyList (count : ℕ) (rows : Option (List ProxyReads))
  | forwardGetRules (rows : Option (List ForwardReads))
  | proxyGetRules (rows : Option (List ProxyReads))
  | loadForwardRule (nexts : ℕ) (row : Option ForwardReads)
  | loadProxyRule (nexts : ℕ) (row : Option ProxyReads)
  deriving DecidableEq, Repr

def Request.program : Request → Program
  | .forwardList count rows => query count ++ outer (rows.map (·.map ForwardReads.program))
  | .proxyList count rows => query count ++ outer (rows.map (·.map ProxyReads.program))
  | .forwardGetRules rows => outer (rows.map (·.map ForwardReads.program))
  | .proxyGetRules rows => outer (rows.map (·.map ProxyReads.program))
  | .loadForwardRule nexts row => query nexts ++ (row.map ForwardReads.program).getD []
  | .loadProxyRule nexts row => query nexts ++ (row.map ProxyReads.program).getD []

/-- A list or a bulk load that finds at least one rule. -/
def Request.readsInside : Request → Bool
  | .forwardList _ (some (_ :: _)) | .forwardGetRules (some (_ :: _))
  | .proxyList _ (some (_ :: _)) | .proxyGetRules (some (_ :: _)) => true
  | _ => false

def boot (numCPU : ℕ) (requests : List Request) : State :=
  ResourcePool.boot (maxOpenConns numCPU) (requests.map Request.program)

/-! ## The programs -/

theorem wellFormed_works (held n : ℕ) (rest : Program) :
    WellFormed held (List.replicate n .work ++ rest) ↔ WellFormed held rest := by
  induction n with
  | zero => rfl
  | succ n ih => exact ih

theorem nests_works (held n : ℕ) (rest : Program) :
    nests held (List.replicate n .work ++ rest) = nests held rest := by
  induction n with
  | zero => rfl
  | succ n ih => exact ih

/-- A query gives its connection back before the call goes on. -/
theorem wellFormed_query {held : ℕ} (hheld : held ≤ 1) (n : ℕ) {rest : Program}
    (h : WellFormed held rest) : WellFormed held (query n ++ rest) := by
  have hbody : WellFormed (held + 1) (List.replicate n .work ++ (.release :: rest)) :=
    (wellFormed_works (held + 1) n _).mpr ⟨Nat.succ_pos held, h⟩
  rw [query, List.cons_append, List.append_assoc]
  exact ⟨hheld, hbody⟩

theorem nests_query (held n : ℕ) (rest : Program) :
    nests held (query n ++ rest) = (decide (0 < held) || nests held rest) := by
  simp only [query, List.cons_append, List.append_assoc, nests, nests_works, List.nil_append,
    Nat.add_sub_cancel]

theorem query_nil (n : ℕ) : query n = query n ++ [] := (List.append_nil _).symm

/-- The reads beside a rule can be made with or without a connection in hand. -/
def Reads (reads : Program) : Prop :=
  ∀ held ≤ 1, ∀ rest, WellFormed held rest → WellFormed held (reads ++ rest)

theorem ForwardReads.reads (r : ForwardReads) : Reads r.program := by
  intro held hheld rest h
  rw [ForwardReads.program, List.append_assoc]
  exact wellFormed_query hheld _ (wellFormed_query hheld _ h)

theorem ProxyReads.reads (r : ProxyReads) : Reads r.program := by
  intro held hheld rest h
  simp only [ProxyReads.program, List.append_assoc]
  apply wellFormed_query hheld
  apply wellFormed_query hheld
  apply wellFormed_query hheld
  apply wellFormed_query hheld
  exact wellFormed_query hheld _ h

theorem wellFormed_rows {rows : List Program} (h : ∀ p ∈ rows, Reads p) :
    WellFormed 1 (rows.flatMap (fun reads => .work :: reads) ++ [.work, .release]) := by
  induction rows with
  | nil => exact ⟨Nat.one_pos, rfl⟩
  | cons p rows ih =>
    rw [List.flatMap_cons, List.append_assoc]
    apply h p List.mem_cons_self 1 le_rfl
    exact ih fun q hq => h q (List.mem_cons_of_mem _ hq)

theorem wellFormed_outer {rows : Option (List Program)} (h : ∀ l ∈ rows, ∀ p ∈ l, Reads p) :
    WellFormed 0 (outer rows) := by
  cases rows with
  | none =>
    rw [outer, query_nil]
    exact wellFormed_query (Nat.zero_le 1) 0 rfl
  | some rows => exact ⟨Nat.zero_le 1, wellFormed_rows (h rows rfl)⟩

theorem wellFormed_loads (nexts : ℕ) {row : Option Program} (h : ∀ p ∈ row, Reads p) :
    WellFormed 0 (query nexts ++ row.getD []) := by
  apply wellFormed_query (Nat.zero_le 1)
  cases row with
  | none => rfl
  | some p =>
    have hp := h p rfl 0 (Nat.zero_le 1) [] rfl
    rwa [List.append_nil] at hp

theorem Request.wellFormed (r : Request) : WellFormed 0 r.program := by
  have hforward : ∀ rows : Option (List ForwardReads),
      WellFormed 0 (outer (rows.map (·.map ForwardReads.program))) := by
    intro rows
    apply wellFormed_outer
    intro l hl p hp
    obtain ⟨rows', -, rfl⟩ := Option.map_eq_some_iff.mp hl
    obtain ⟨reads, -, rfl⟩ := List.mem_map.mp hp
    exact reads.reads
  have hproxy : ∀ rows : Option (List ProxyReads),
      WellFormed 0 (outer (rows.map (·.map ProxyReads.program))) := by
    intro rows
    apply wellFormed_outer
    intro l hl p hp
    obtain ⟨rows', -, rfl⟩ := Option.map_eq_some_iff.mp hl
    obtain ⟨reads, -, rfl⟩ := List.mem_map.mp hp
    exact reads.reads
  cases r with
  | forwardList count rows => exact wellFormed_query (Nat.zero_le 1) count (hforward rows)
  | proxyList count rows => exact wellFormed_query (Nat.zero_le 1) count (hproxy rows)
  | forwardGetRules rows => exact hforward rows
  | proxyGetRules rows => exact hproxy rows
  | loadForwardRule nexts row =>
    apply wellFormed_loads
    intro p hp
    obtain ⟨reads, -, rfl⟩ := Option.map_eq_some_iff.mp hp
    exact reads.reads
  | loadProxyRule nexts row =>
    apply wellFormed_loads
    intro p hp
    obtain ⟨reads, -, rfl⟩ := Option.map_eq_some_iff.mp hp
    exact reads.reads

/-- Only the lists and bulk loads that find a rule ask for a second connection. -/
theorem Request.nests_program (r : Request) : nests 0 r.program = r.readsInside := by
  have hnone : nests 0 (outer none) = false := rfl
  have hempty : nests 0 (outer (some [])) = false := rfl
  cases r with
  | forwardList count rows =>
    rw [Request.program, nests_query]
    match rows with
    | none => exact hnone
    | some [] => exact hempty
    | some (r :: rows) => rfl
  | proxyList count rows =>
    rw [Request.program, nests_query]
    match rows with
    | none => exact hnone
    | some [] => exact hempty
    | some (r :: rows) => rfl
  | forwardGetRules rows =>
    match rows with
    | none => exact hnone
    | some [] => exact hempty
    | some (r :: rows) => rfl
  | proxyGetRules rows =>
    match rows with
    | none => exact hnone
    | some [] => exact hempty
    | some (r :: rows) => rfl
  | loadForwardRule nexts row =>
    rw [Request.program, nests_query]
    cases row with
    | none => rfl
    | some reads =>
      change nests 0 (query reads.whitelist ++ query reads.blacklist) = false
      rw [nests_query, query_nil, nests_query]
      rfl
  | loadProxyRule nexts row =>
    rw [Request.program, nests_query]
    cases row with
    | none => rfl
    | some reads =>
      change nests 0 (ProxyReads.program reads) = false
      rw [ProxyReads.program, query_nil reads.uaBlacklist]
      simp only [List.append_assoc, nests_query]
      rfl

theorem Request.head_program (r : Request) : r.program.head? = some .acquire := by
  cases r with
  | forwardGetRules rows => cases rows <;> rfl
  | proxyGetRules rows => cases rows <;> rfl
  | _ => rfl

/-- With any calls at work, from the start on and in any order of their steps:
some unfinished call can go on in every state reached if and only if fewer
lists and bulk loads with a rule to read are at work than there are connections. -/
theorem canMove_iff_few_readers (numCPU : ℕ) (requests : List Request) :
    (∀ as, CanMove (machine.run (boot numCPU requests) as)) ↔
      requests.countP Request.readsInside < maxOpenConns numCPU := by
  have hpos : 0 < maxOpenConns numCPU := lt_of_lt_of_le Nat.two_pos (le_max_left _ _)
  have hwf : ∀ p ∈ requests.map Request.program, WellFormed 0 p := by
    intro p hp
    obtain ⟨r, -, rfl⟩ := List.mem_map.mp hp
    exact r.wellFormed
  have hstart : ∀ p ∈ requests.map Request.program, p.head? = some .acquire := by
    intro p hp
    obtain ⟨r, -, rfl⟩ := List.mem_map.mp hp
    exact r.head_program
  have hcount : (requests.map Request.program).countP (nests 0) =
      requests.countP Request.readsInside := by
    rw [List.countP_map]
    exact List.countP_congr fun r _ => by rw [Function.comp_apply, Request.nests_program]
  rw [← hcount]
  exact canMove_iff hpos hwf hstart

/-! ## Two lists at once -/

/-- Both have counted, opened their rows and scanned the first rule. -/
def bothReading : List Action :=
  List.replicate 5 (.run 0 ()) ++ List.replicate 5 (.run 1 ())

instance (c : State) : Decidable (CanMove c) := by
  unfold CanMove
  infer_instance

/-- On a machine with two processors, two lists of one rule wait for each
other's connection. -/
theorem two_lists_stuck :
    ¬ CanMove (machine.run (boot 2 [.forwardList 1 (some [⟨1, 1⟩]), .forwardList 1 (some [⟨1, 1⟩])])
      bothReading) := by
  decide

end NetBerth.ConnectionPool
