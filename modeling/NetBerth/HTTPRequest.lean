import Mathlib

/-!
# What the servers read of a request

The address of the peer, the headers, each with any number of lines, and the
parts of a header that is a list.
-/
namespace NetBerth.HTTPRequest

structure Request where
  host : String
  remoteAddr : String
  header : String → List String

/-- `Header.Get`: the first line, or nothing. -/
def Request.get (r : Request) (key : String) : String := (r.header key).headD ""

/-- `strings.Split` by one character. -/
def split (sep : Char) (s : String) : List String := (s.toList.splitOn sep).map String.ofList

theorem split_comma_append (p s : String) : split ',' (p ++ "," ++ s) = split ',' p ++ split ',' s := by
  have hcomma : (p ++ "," ++ s).toList = p.toList ++ ',' :: s.toList := by simp
  rw [split, hcomma, List.splitOn_append_cons_self, List.map_append, split, split]

end NetBerth.HTTPRequest
