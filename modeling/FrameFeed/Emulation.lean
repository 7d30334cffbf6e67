/-! Emulation prevention. Inside a NAL unit a byte 3 is put after two zero bytes so that no start
code appears by chance; taking these bytes out gives back the payload. -/

namespace FrameFeed.Emulation

/-- Appends to `out` the bytes from `index` on, less every 3 that follows two zeros; `zeros` counts
the zeros just before `index`. -/
def removeFrom (data : ByteArray) (index zeros : Nat) (out : ByteArray) : ByteArray :=
  if h : index < data.size then
    if 2 ≤ zeros ∧ data[index] = 3 then
      removeFrom data (index + 1) 0 out
    else if data[index] = 0 then
      removeFrom data (index + 1) (zeros + 1) (out.push data[index])
    else
      removeFrom data (index + 1) 0 (out.push data[index])
  else
    out
termination_by data.size - index

/-- The payload of a NAL unit: its bytes without the emulation prevention bytes. -/
def remove (data : ByteArray) : ByteArray := removeFrom data 0 0 ByteArray.empty

end FrameFeed.Emulation
