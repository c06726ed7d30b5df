import PhpSandbox.Lib.CString

/-!
# Descriptors that deliver bytes in pieces

`read` gives what it likes of what it is asked for, and may be interrupted. A `Conn` is what comes in on a descriptor,
call by call. `safeRead` is the loop that goes on until all bytes are there: if nothing fails, the pieces do not show
(`safeRead_eq`).
-/

namespace PhpSandbox.Lib

open List

/-- What a call of `read` finds. -/
inductive Arrival where
  /-- So many bytes are there. -/
  | data (b : UInt8) (bs : Bytes)
  /-- `EINTR`. -/
  | interrupted
  /-- Any other error. -/
  | failed
  deriving DecidableEq

/-- What comes in, until the other side closes. -/
abbrev Conn := List Arrival

namespace Conn

/-- All bytes that come in. -/
def bytes : Conn → Bytes
  | [] => []
  | .data b bs :: c => b :: bs ++ bytes c
  | .interrupted :: c => bytes c
  | .failed :: c => bytes c

/-- There is no error. -/
def Clean (c : Conn) : Prop := .failed ∉ c

instance (c : Conn) : Decidable c.Clean := inferInstanceAs (Decidable (.failed ∉ c))

/-- What is left of a piece is there for the next call. -/
def unread : Bytes → Conn → Conn
  | [], c => c
  | b :: bs, c => .data b bs :: c

/-- `read` is called until there are `count` bytes, the other side has closed, or there is an error. -/
def safeRead : Conn → ℕ → Option Bytes × Conn
  | [], _ => (some [], [])
  | .interrupted :: c, count => safeRead c count
  | .failed :: c, _ => (none, c)
  | .data b bs :: c, count =>
    if count ≤ bs.length + 1 then (some ((b :: bs).take count), unread ((b :: bs).drop count) c)
    else
      let (r, c) := safeRead c (count - (bs.length + 1))
      (r.map (b :: bs ++ ·), c)

theorem bytes_unread (bs : Bytes) (c : Conn) : bytes (unread bs c) = bs ++ bytes c := by
  cases bs <;> rfl

variable {c : Conn}

theorem Clean.tail {a : Arrival} (h : Clean (a :: c)) : Clean c :=
  fun hmem => h (mem_cons_of_mem _ hmem)

theorem Clean.unread (h : c.Clean) (bs : Bytes) : (unread bs c).Clean := by
  cases bs with
  | nil => exact h
  | cons b bs =>
    intro hmem
    rcases mem_cons.mp hmem with heq | hmem
    · cases heq
    · exact h hmem

/-- **All bytes that are asked for are read**, if they come. -/
theorem safeRead_eq {a rest : Bytes} (hc : c.Clean) (h : c.bytes = a ++ rest) :
    ∃ c', safeRead c a.length = (some a, c') ∧ bytes c' = rest ∧ Clean c' := by
  induction c generalizing a with
  | nil =>
    obtain ⟨rfl, rfl⟩ := append_eq_nil_iff.mp h.symm
    exact ⟨[], rfl, rfl, hc⟩
  | cons x c ih =>
    cases x with
    | interrupted => exact ih hc.tail h
    | failed => exact absurd mem_cons_self hc
    | data b bs =>
      rw [bytes] at h
      rw [safeRead]
      split_ifs with hle
      · -- the piece has them all
        have htake : (b :: bs).take a.length = a := by
          have := congrArg (List.take a.length) h
          rwa [take_append_of_le_length hle, take_left] at this
        have hdrop : (b :: bs).drop a.length ++ bytes c = rest := by
          have := congrArg (drop a.length) h
          rwa [drop_append_of_le_length hle, drop_left] at this
        refine ⟨_, by rw [htake], ?_, hc.tail.unread _⟩
        rw [bytes_unread, hdrop]
      · -- the piece is the beginning of them
        have hlen : (b :: bs).length ≤ a.length := by
          rw [length_cons]
          omega
        obtain ⟨a', rfl⟩ : b :: bs <+: a := prefix_of_prefix_length_le ⟨_, h⟩ ⟨rest, rfl⟩ hlen
        rw [append_assoc] at h
        obtain ⟨c', hread, hbytes, hclean⟩ := ih hc.tail (append_cancel_left h)
        refine ⟨c', ?_, hbytes, hclean⟩
        have hsub : (b :: bs ++ a').length - (bs.length + 1) = a'.length := by
          rw [length_append, length_cons]
          omega
        rw [hsub, hread]
        rfl

end Conn

end PhpSandbox.Lib
