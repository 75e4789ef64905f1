import Mathlib

/-!
# Write-ahead logs

A database is a file of pages and a log of frames behind it. A commit puts frames at the
end of the log; what the database holds is the file with the log played over it. At any
time a frame may be copied back into the file, and a log that is in the file may be
started anew. Neither changes what the database holds.

Pages and what is on them are arbitrary. A file of bytes has a page for each byte, or a
page for so many of them.
-/
namespace WriteAheadLog

variable {Page α : Type*} [DecidableEq Page]

scoped instance decidableMemLog [DecidableEq α] (frame : Page × α) (log : List (Page × α)) :
    Decidable (frame ∈ log) := inferInstance

def write (file : Page → α) (frame : Page × α) : Page → α :=
  Function.update file frame.1 frame.2

theorem write_eq_self {file : Page → α} {frame : Page × α} (h : file frame.1 = frame.2) :
    write file frame = file := by
  rw [write, ← h, Function.update_eq_self]

def replay (file : Page → α) (log : List (Page × α)) : Page → α := log.foldl write file

section
variable {file other : Page → α} {log : List (Page × α)} {frame : Page × α} {page : Page}

@[simp] theorem replay_nil (file : Page → α) : replay file [] = file := rfl

@[simp] theorem replay_cons (file : Page → α) (frame : Page × α) (log : List (Page × α)) :
    replay file (frame :: log) = replay (write file frame) log := rfl

theorem replay_append (file : Page → α) (log more : List (Page × α)) :
    replay file (log ++ more) = replay (replay file log) more := List.foldl_append

/-- The log has nothing to say about the other pages. -/
theorem replay_of_notMem (h : page ∉ log.map Prod.fst) : replay file log page = file page := by
  induction log generalizing file with
  | nil => rfl
  | cons frame log ih =>
    rw [List.map_cons, List.mem_cons, not_or] at h
    rw [replay_cons, ih h.2]
    exact Function.update_of_ne h.1 _ _

/-- What is on a page of the log does not depend on the file. -/
theorem replay_of_mem (h : page ∈ log.map Prod.fst) (file other : Page → α) :
    replay file log page = replay other log page := by
  induction log generalizing file other with
  | nil => cases h
  | cons frame log ih =>
    rw [replay_cons, replay_cons]
    by_cases hlater : page ∈ log.map Prod.fst
    · exact ih hlater _ _
    · have hpage : page = frame.1 := (List.mem_cons.mp h).resolve_right hlater
      rw [replay_of_notMem hlater, replay_of_notMem hlater, hpage, write, write,
        Function.update_self, Function.update_self]

/-- Only the pages the log does not have matter. -/
theorem replay_congr (h : ∀ page ∉ log.map Prod.fst, file page = other page) :
    replay file log = replay other log := by
  funext page
  by_cases hpage : page ∈ log.map Prod.fst
  · exact replay_of_mem hpage file other
  · rw [replay_of_notMem hpage, replay_of_notMem hpage, h page hpage]

/-- A page of the log may be overwritten with anything. -/
theorem replay_write (h : frame.1 ∈ log.map Prod.fst) :
    replay (write file frame) log = replay file log := by
  apply replay_congr
  intro page hpage
  apply Function.update_of_ne
  rintro rfl
  exact hpage h

end

/-- All of the log is in the file. -/
def Settled (file : Page → α) (log : List (Page × α)) : Prop := replay file log = file

/-! ## A file with its log -/

structure Store (Page α : Type*) where
  main : Page → α
  log : List (Page × α)

namespace Store
variable (s : Store Page α)

def content : Page → α := replay s.main s.log

def commit (frames : List (Page × α)) : Store Page α := { s with log := s.log ++ frames }

def backfill (frame : Page × α) : Store Page α := { s with main := write s.main frame }

/-- All of the log is copied back and a new one begun. -/
def checkpoint : Store Page α := ⟨s.content, []⟩

theorem content_commit (frames : List (Page × α)) :
    (s.commit frames).content = replay s.content frames := replay_append s.main s.log frames

theorem content_backfill {frame : Page × α} (h : frame ∈ s.log) :
    (s.backfill frame).content = s.content :=
  replay_write (List.mem_map_of_mem h)

theorem content_checkpoint : s.checkpoint.content = s.content := rfl

end Store

end WriteAheadLog
