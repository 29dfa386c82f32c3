import Esp32Utils.RequestContent

/-! # The query and the headers of a request

A component is fetched into a string that has been resized for it. The terminator goes behind
the string of a header, and into the string of a query. -/
namespace RequestComponents

open ByteStrings RequestContent

structure HttpdReq where
  query : Option CString
  header : CString → Option CString

def length (component : Option CString) : ℕ :=
  match component with
  | none => 0
  | some c => c.bytes.length

/-- What is written into a buffer of a size, which cuts a longer component. -/
def copied (component : Option CString) (bufLen : ℕ) : Bytes :=
  match component with
  | none => []
  | some c => c.bytes.take (bufLen - 1) ++ [0]

/-- A resized string after a write at its start. A string keeps a terminator behind it. -/
def filled (size : ℕ) (bs : Bytes) : Bytes :=
  (overwrite (List.replicate (size + 1) 0) 0 bs).take size

def getUriQuery (req : Option HttpdReq) : Bytes :=
  match req with
  | none => []
  | some req =>
    let queryLength := length req.query
    filled (queryLength + 1) (copied req.query (queryLength + 1))

def getHeader (req : HttpdReq) (header : CString) : Bytes :=
  let headerLength := length (req.header header)
  filled headerLength (copied (req.header header) (headerLength + 1))

def textOf (component : Option CString) : Bytes :=
  match component with
  | none => []
  | some c => c.bytes

def Exact (req : HttpdReq) : Prop :=
  getUriQuery (some req) = textOf req.query ∧
    ∀ header, getHeader req header = textOf (req.header header)

section Buffers

variable {component : Option CString} {n : ℕ}

theorem copied_whole (c : CString) : copied (some c) (c.bytes.length + 1) = c.bytes ++ [0] := by
  rw [copied, Nat.add_sub_cancel, List.take_length]

theorem overwrite_blank {bs : Bytes} :
    overwrite (List.replicate n 0) 0 bs = bs ++ List.replicate (n - bs.length) 0 := by
  rw [overwrite, List.take_zero, List.nil_append, Nat.zero_add, List.drop_replicate]

theorem filled_with_terminator :
    filled (length component + 1) (copied component (length component + 1)) =
      textOf component ++ [0] := by
  cases component with
  | none => rfl
  | some c =>
    have hlength : c.bytes.length + 1 = (c.bytes ++ [0]).length := by simp
    rw [length, copied_whole, filled, overwrite_blank, textOf, hlength, List.take_left]

theorem filled_without_terminator :
    filled (length component) (copied component (length component + 1)) = textOf component := by
  cases component with
  | none => rfl
  | some c =>
    rw [length, copied_whole, filled, overwrite_blank, textOf, List.append_assoc,
      List.take_left]

end Buffers

/-- A header is exact, a query always has its terminator at the end. -/
theorem components_never_exact (req : HttpdReq) : ¬ Exact req ∧
    getUriQuery (some req) = textOf req.query ++ [0] ∧
    ∀ header, getHeader req header = textOf (req.header header) := by
  have hquery : getUriQuery (some req) = textOf req.query ++ [0] := filled_with_terminator
  refine ⟨?_, hquery, fun _ => filled_without_terminator⟩
  intro hexact
  have hlength := congrArg List.length (hquery.symm.trans hexact.1)
  rw [List.length_append, List.length_singleton] at hlength
  omega

/-- A query of three bytes comes back with a fourth. -/
theorem query_keeps_terminator :
    let req : HttpdReq := ⟨some ⟨ascii "a=1", by decide⟩, fun _ => none⟩
    getUriQuery (some req) = ascii "a=1" ++ [0] ∧ ¬ Exact req := by
  intro req
  have hquery : getUriQuery (some req) = ascii "a=1" ++ [0] := by decide
  refine ⟨hquery, ?_⟩
  intro hexact
  exact absurd (hquery.symm.trans hexact.1) (by decide)

end RequestComponents
