import FrameFeed.Proofs.Bytes
import FrameFeed.Span

/-! Spans that tile a piece of a stream: each one begins where the one before it ends, and none is
empty. The bytes of such spans, one after another, are the bytes of the piece. -/

namespace FrameFeed.Span

/-- The bytes of a span. -/
def bytes (data : ByteArray) (span : Span) : ByteArray := data.extract span.start span.stop

/-- The bytes of spans, one after another. -/
def joined (data : ByteArray) : List Span → ByteArray
  | [] => ByteArray.empty
  | span :: rest => span.bytes data ++ joined data rest

/-- Spans without a gap and without an overlap from one offset to another, none of them empty. -/
inductive Tile : Nat → List Span → Nat → Prop
  | none (offset : Nat) : Tile offset [] offset
  | cons {span : Span} {rest : List Span} {stop : Nat} :
      span.start < span.stop → Tile span.stop rest stop → Tile span.start (span :: rest) stop

variable {start stop : Nat} {spans : List Span}

theorem Tile.le (h : Tile start spans stop) : start ≤ stop := by
  induction h with
  | none => exact Nat.le_refl _
  | cons hSpan _ ih => exact Nat.le_trans (Nat.le_of_lt hSpan) ih

/-- Spans that tile a piece have as many bytes as the piece. -/
theorem Tile.total_size (h : Tile start spans stop) (count : Nat) :
    start + (spans.map Span.size).foldl (· + ·) count = stop + count := by
  induction h generalizing count with
  | none => rfl
  | @cons span rest stop hSpan _ ih =>
    have hRest := ih (count + span.size)
    rw [List.map_cons, List.foldl_cons]
    simp only [size] at *
    omega

theorem Tile.stop_le (h : Tile start spans stop) {span : Span} (hSpan : span ∈ spans) :
    span.stop ≤ stop := by
  induction h with
  | none => cases hSpan
  | cons _ hRest ih =>
    rcases List.mem_cons.mp hSpan with rfl | hLater
    · exact hRest.le
    · exact ih hLater

/-- The bytes of the spans are those of the piece that they tile: none is lost and none comes
twice. -/
theorem Tile.joined_eq (h : Tile start spans stop) (data : ByteArray) :
    joined data spans = data.extract start stop := by
  induction h with
  | none => exact ByteArray.extract_same.symm
  | cons hSpan hRest ih =>
    rw [joined, bytes, ih,
      ← ByteArray.extract_eq_extract_append_extract _ (Nat.le_of_lt hSpan) hRest.le]

theorem Tile.size_joined {data : ByteArray} (h : Tile start spans data.size) :
    (joined data spans).size = (spans.map Span.size).foldl (· + ·) 0 := by
  have hTotal := h.total_size 0
  rw [h.joined_eq, ByteArray.size_extract]
  omega

theorem Tile.map_size {data : ByteArray} (h : Tile start spans data.size) :
    spans.map (fun span => (span.bytes data).size) = spans.map Span.size := by
  refine List.map_congr_left fun span hSpan => ?_
  have hStop := h.stop_le hSpan
  rw [bytes, ByteArray.size_extract, size]
  omega

theorem Tile.start_eq {span : Span} {rest : List Span} (h : Tile start (span :: rest) stop) :
    span.start = start := by
  cases h
  rfl

theorem Tile.tail {span : Span} {rest : List Span} (h : Tile start (span :: rest) stop) :
    Tile span.stop rest stop := by
  cases h
  assumption

/-- A span ends where the next one begins. So spans that begin where the first ones of others do are
those others, but for the last, of which only the beginning is known. -/
theorem Tile.dropLast_prefix_of_starts (h : Tile start spans stop) {others : List Span}
    {stop' : Nat} (hOthers : Tile start others stop')
    (hStarts : spans.map Span.start <+: others.map Span.start) : spans.dropLast <+: others := by
  induction h generalizing others with
  | none => exact List.nil_prefix
  | @cons span rest stop _ hRest ih =>
    cases rest with
    | nil => exact List.nil_prefix
    | cons next later =>
      obtain _ | ⟨other, _ | ⟨next', later'⟩⟩ := others
      · exact absurd (List.prefix_nil.mp hStarts) (List.cons_ne_nil _ _)
      · exact absurd (List.prefix_nil.mp (List.cons_prefix_cons.mp hStarts).2)
          (List.cons_ne_nil _ _)
      · obtain ⟨hStart, hLater⟩ := List.cons_prefix_cons.mp hStarts
        have hNext := (List.cons_prefix_cons.mp hLater).1
        have hStop : span.stop = other.stop := by
          rw [← hRest.start_eq, ← hOthers.tail.start_eq, hNext]
        have hSame : span = other := calc
          span = ⟨span.start, span.stop⟩ := rfl
          _ = ⟨other.start, other.stop⟩ := by rw [hStart, hStop]
          _ = other := rfl
        rw [List.dropLast_cons_cons, hSame]
        exact (List.prefix_cons_inj other).mpr (ih (hStop ▸ hOthers.tail) hLater)

end FrameFeed.Span
