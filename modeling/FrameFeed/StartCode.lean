/-! Start codes: two or three zero bytes and a one, which stand before each NAL unit. A search in
bytes held in memory finds the first one and, at one place, prefers three zeros to two. -/

namespace FrameFeed

/-- A start code: the offset of its first zero and the number of its zeros, two or three. -/
structure StartCode where
  offset : Nat
  zeros : Nat
  deriving DecidableEq, Repr

namespace StartCode

/-- The offset of the first byte after the start code, where a unit's header begins. -/
def nalOffset (code : StartCode) : Nat := code.offset + code.zeros + 1

theorem offset_lt_nalOffset (code : StartCode) : code.offset < code.nalOffset := by
  simp only [nalOffset]
  omega

/-- The first start code at or after an index. -/
def findFrom? (data : ByteArray) (index : Nat) : Option StartCode :=
  if h : index + 2 < data.size then
    if data[index] = 0 ∧ data[index + 1] = 0 ∧ data[index + 2] = 0 ∧ data[index + 3]? = some 1 then
      some ⟨index, 3⟩
    else if data[index] = 0 ∧ data[index + 1] = 0 ∧ data[index + 2] = 1 then
      some ⟨index, 2⟩
    else
      findFrom? data (index + 1)
  else
    none
termination_by data.size - index

/-- The first start code in the data. -/
def find? (data : ByteArray) : Option StartCode := findFrom? data 0

/-- A start code that is found lies in the data, at or after the index the search began at. -/
theorem findFrom?_bounds {data : ByteArray} {index : Nat} {code : StartCode}
    (h : findFrom? data index = some code) :
    index ≤ code.offset ∧ code.nalOffset ≤ data.size := by
  fun_induction findFrom? data index with
  | case1 index hSize hLong =>
    cases h
    obtain ⟨_, _, _, hOne⟩ := hLong
    have hLast : index + 3 < data.size := by
      apply Decidable.byContradiction
      intro hPast
      rw [getElem?_neg data (index + 3) hPast] at hOne
      cases hOne
    simp only [nalOffset]
    omega
  | case2 index hSize =>
    cases h
    simp only [nalOffset]
    omega
  | case3 index hSize _ _ ih =>
    have := ih h
    omega
  | case4 => cases h

/-- The offset at which a unit ends whose header is at `start`: the next start code, or the end of
the data. -/
def unitStop (data : ByteArray) (start : Nat) : Nat :=
  match findFrom? data start with
  | some next => next.offset
  | none => data.size

theorem le_unitStop {data : ByteArray} {start : Nat} (h : start ≤ data.size) :
    start ≤ unitStop data start := by
  unfold unitStop
  split
  · exact (findFrom?_bounds ‹_›).1
  · exact h

theorem left_lt_of_findFrom? {data : ByteArray} {index : Nat} {code : StartCode}
    (h : findFrom? data index = some code) : data.size - code.nalOffset < data.size - index := by
  have := findFrom?_bounds h
  simp only [nalOffset] at *
  omega

end StartCode

end FrameFeed
