import Mathlib

/-!
# Decoding JSON into records

A value is decoded into what is there already: `null` leaves most of it alone, an
object sets the fields that its members name, in their order, and members that
name no field are passed over. A member names a field by its tag, or else by its
tag in other letter cases. A value of the wrong kind is an error.

What no field of a record sets, no text can: decoding keeps it.
-/
namespace JSONDecode

/-- A JSON text. A number is an integer, or has a fraction or an exponent. -/
inductive JSON where
  | null
  | bool (b : Bool)
  | number (n : Option ℤ)
  | string (s : String)
  | array (elements : List JSON)
  | object (members : List (String × JSON))

/-- What becomes of a value when a text is decoded into it. -/
abbrev Decoder (α : Type*) := JSON → α → Option α

def string : Decoder String
  | .null, old => some old
  | .string s, _ => some s
  | _, _ => none

def bool : Decoder Bool
  | .null, old => some old
  | .bool b, _ => some b
  | _, _ => none

/-- An integer of 64 bits. -/
def int : Decoder ℤ
  | .null, old => some old
  | .number (some n), _ => if -2 ^ 63 ≤ n ∧ n < 2 ^ 63 then some n else none
  | _, _ => none

/-- A value with a format of its own. -/
def text {α : Type*} (parse : String → Option α) : Decoder α
  | .null, old => some old
  | .string s, _ => parse s
  | _, _ => none

def pointer {α : Type*} (zero : α) (decode : Decoder α) : Decoder (Option α)
  | .null, _ => some none
  | j, old => (decode j (old.getD zero)).map some

/-- A slice, `none` if it is nil; its elements are decoded into those there. -/
def slice {α : Type*} (zero : α) (decode : Decoder α) : Decoder (Option (List α))
  | .null, _ => some none
  | .array elements, old =>
    (elements.zipIdx.mapM fun x => decode x.1 (((old.getD [])[x.2]?).getD zero)).map some
  | _, _ => none

/-- A map from texts, `none` if it is nil; the members are added to those there. -/
def map {α : Type*} (zero : α) (decode : Decoder α) : Decoder (Option (List (String × α)))
  | .null, _ => some none
  | .object members, old =>
    (members.foldlM (fun kept m => (decode m.2 zero).map fun v =>
      kept.filter (fun x => x.1 ≠ m.1) ++ [(m.1, v)]) (old.getD [])).map some
  | _, _ => none

/-! ## Records -/

/-- The tag of a field, and how it is decoded in the record. -/
abbrev TaggedField (ρ : Type*) := String × Decoder ρ

def field {ρ α : Type*} (tag : String) (decode : Decoder α) (get : ρ → α) (set : ρ → α → ρ) :
    TaggedField ρ := (tag, fun j r => (decode j (get r)).map (set r))

/-- A letter in the case all its cases fold to. The long s and the Kelvin sign fold
to letters of ASCII. -/
def foldChar (c : Char) : Char :=
  if c = Char.ofNat 0x17f then 'S' else if c = Char.ofNat 0x212a then 'K' else c.toUpper

def foldName (s : String) : List Char := s.toList.map foldChar

/-- The field a member names. -/
def findField {ρ : Type*} (fields : List (TaggedField ρ)) (name : String) : Option (Decoder ρ) :=
  ((fields.find? fun f => f.1 = name).orElse fun _ =>
    fields.find? fun f => foldName f.1 = foldName name).map Prod.snd

def struct {ρ : Type*} (fields : List (TaggedField ρ)) : Decoder ρ
  | .null, old => some old
  | .object members, old =>
    members.foldlM (fun r m =>
      match findField fields m.1 with
      | none => some r
      | some decode => decode m.2 r) old
  | _, _ => none

section
variable {ρ α τ : Type*} {fields : List (TaggedField ρ)}

theorem findField_mem {name : String} {decode : Decoder ρ}
    (h : findField fields name = some decode) : ∃ tag, (tag, decode) ∈ fields := by
  obtain ⟨f, hf, rfl⟩ := Option.map_eq_some_iff.mp h
  refine ⟨f.1, ?_⟩
  cases hexact : fields.find? fun f => f.1 = name with
  | none =>
    rw [hexact] at hf
    exact List.mem_of_find?_eq_some hf
  | some g =>
    rw [hexact] at hf
    obtain rfl : g = f := Option.some.inj hf
    exact List.mem_of_find?_eq_some hexact

/-- The field leaves this part of the record alone. -/
def Spares (π : ρ → τ) (f : TaggedField ρ) : Prop := ∀ j r r', f.2 j r = some r' → π r' = π r

theorem spares_field {π : ρ → τ} {tag : String} {decode : Decoder α} {get : ρ → α}
    {set : ρ → α → ρ} (h : ∀ r v, π (set r v) = π r) : Spares π (field tag decode get set) := by
  intro j r r' hd
  obtain ⟨v, -, rfl⟩ := Option.map_eq_some_iff.mp hd
  exact h r v

/-- What every field leaves alone, decoding leaves alone. -/
theorem struct_spares {π : ρ → τ} (h : ∀ f ∈ fields, Spares π f) {j : JSON} {r r' : ρ}
    (hd : struct fields j r = some r') : π r' = π r := by
  cases j with
  | null =>
    cases hd
    rfl
  | object members =>
    simp only [struct] at hd
    induction members generalizing r with
    | nil =>
      cases hd
      rfl
    | cons m members ih =>
      rw [List.foldlM_cons] at hd
      obtain ⟨r₁, hfirst, hrest⟩ := Option.bind_eq_some_iff.mp hd
      rw [ih hrest]
      cases hfind : findField fields m.1 with
      | none =>
        rw [hfind] at hfirst
        cases hfirst
        rfl
      | some decode =>
        rw [hfind] at hfirst
        obtain ⟨tag, hmem⟩ := findField_mem hfind
        exact h (tag, decode) hmem m.2 r r₁ hfirst
  | _ => cases hd

end

end JSONDecode
