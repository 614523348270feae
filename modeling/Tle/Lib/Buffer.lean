import Tle.Lib.Scan

/-!
# Character arrays of a fixed size

An array holds a C string and what older strings have left behind its terminator.
-/

namespace Tle.Lib

structure Buffer (size : Nat) where
  bytes : Text
  length_eq : bytes.length = size
  deriving DecidableEq

namespace Buffer

variable {size : Nat}

/-- As `calloc` leaves it. -/
def zero (size : Nat) : Buffer size := ⟨List.replicate size '\x00', List.length_replicate⟩

/-- The string in the array. -/
def text (b : Buffer size) : Text := cstr b.bytes

/-- `memcpy(b + off, data, n); b[off + n] = 0`, when both fit. -/
def put (b : Buffer size) (off : Nat) (data : Text) : Option (Buffer size) :=
  if h : off + data.length < size then
    some ⟨b.bytes.take off ++ (data ++ '\x00' :: b.bytes.drop (off + data.length + 1)), by
      have hlength := b.length_eq
      simp only [List.length_append, List.length_take, List.length_cons, List.length_drop]
      omega⟩
  else none

theorem bytes_put {b b' : Buffer size} {off : Nat} {data : Text} (h : b.put off data = some b') :
    off + data.length < size ∧
      b'.bytes = b.bytes.take off ++ (data ++ '\x00' :: b.bytes.drop (off + data.length + 1)) := by
  unfold put at h
  split at h
  · rename_i hfits
    exact ⟨hfits, congrArg bytes (Option.some.inj h).symm⟩
  · cases h

theorem eq_of_bytes {b b' : Buffer size} (h : b.bytes = b'.bytes) : b = b' := by
  cases b
  cases b'
  simpa using h

theorem put_isSome {b : Buffer size} {off : Nat} {data : Text} (h : off + data.length < size) :
    ∃ b', b.put off data = some b' := by
  rw [put, dif_pos h]
  exact ⟨_, rfl⟩

theorem put_eq_none {b : Buffer size} {off : Nat} {data : Text} (h : ¬ off + data.length < size) :
    b.put off data = none := dif_neg h

/-- A text can be copied in two parts. -/
theorem put_put (b : Buffer size) (off : Nat) (data data' : Text) :
    (b.put off data).bind (fun b => b.put (off + data.length) data') = b.put off (data ++ data') := by
  by_cases hfits : off + (data ++ data').length < size
  · have hboth : off + (data.length + data'.length) < size := by rwa [List.length_append] at hfits
    obtain ⟨b', hb'⟩ := put_isSome (b := b) (by omega : off + data.length < size)
    obtain ⟨b'', hb''⟩ := put_isSome (b := b') (by omega : off + data.length + data'.length < size)
    obtain ⟨whole, hwhole⟩ := put_isSome (b := b) hfits
    rw [hb', Option.bind_some, hb'', hwhole]
    refine congrArg some (eq_of_bytes ?_)
    rw [(bytes_put hb'').2, (bytes_put hwhole).2, (bytes_put hb').2]
    have hlength : (b.bytes.take off).length = off := by
      rw [List.length_take, b.length_eq]
      omega
    have hleft : (b.bytes.take off ++ (data ++ '\x00' :: b.bytes.drop (off + data.length + 1))).take
        (off + data.length) = b.bytes.take off ++ data := by
      rw [← List.append_assoc]
      exact List.take_left' (by rw [List.length_append, hlength])
    have hright : (b.bytes.take off ++ (data ++ '\x00' :: b.bytes.drop (off + data.length + 1))).drop
        (off + data.length + data'.length + 1) = b.bytes.drop (off + (data ++ data').length + 1) := by
      have hsplit : off + data.length + data'.length + 1 =
          (b.bytes.take off ++ data ++ ['\x00']).length + data'.length := by
        simp only [List.length_append, hlength, List.length_singleton]
        omega
      have hassoc : b.bytes.take off ++ (data ++ '\x00' :: b.bytes.drop (off + data.length + 1)) =
          b.bytes.take off ++ data ++ ['\x00'] ++ b.bytes.drop (off + data.length + 1) := by simp
      rw [hsplit, hassoc, ← List.drop_drop, List.drop_left, List.drop_drop, List.length_append]
      congr 1
      omega
    rw [hleft, hright]
    simp
  · rw [put_eq_none hfits]
    rw [List.length_append] at hfits
    cases hb' : b.put off data with
    | none => rfl
    | some b' => exact put_eq_none (by omega)

end Buffer

end Tle.Lib
