import Mathlib.Tactic

/-!
# Decoders over streams that are read in pieces

A `Decoder` takes items off the front of a buffer. `framedRead` drives it over the reads of a stream:
each read is appended to the buffer, and the decoder is called until it asks for more or fails; at
the end of the stream it is called once more in the same way, and bytes it leaves are an error.

A relation `Anticipates` a decoder when it says, for a state and for all bytes that are still to come
in the buffer and on the stream, which items are still to come, and every call of the decoder bears
it out. Then the items are those that the relation says, whatever the reads are
(`Anticipates.framedRead_eq`).
-/

set_option autoImplicit false

namespace Ferron.Lib.Codec

/-- A decoder with states in `σ`, which takes items in `ι` off buffers of elements in `β`. Calls that
return an item make the rank smaller. -/
structure Decoder (σ β ι ε : Type) where
  decode : σ → List β → Except ε (Option ι) × σ × List β
  rank : σ → List β → Nat
  rank_lt : ∀ (s : σ) (buffer : List β) (item : ι) (s' : σ) (buffer' : List β),
    decode s buffer = (.ok (some item), s', buffer') → rank s' buffer' < rank s buffer

variable {σ β ι ε : Type} (decoder : Decoder σ β ι ε)

namespace Decoder

/-- Calls the decoder until it asks for more or fails. -/
def drain (s : σ) (buffer : List β) : List ι × Option ε × σ × List β :=
  match _h : decoder.decode s buffer with
  | (.error e, s', buffer') => ([], some e, s', buffer')
  | (.ok none, s', buffer') => ([], none, s', buffer')
  | (.ok (some item), s', buffer') =>
      let rest := drain s' buffer'
      (item :: rest.1, rest.2)
  termination_by decoder.rank s buffer
  decreasing_by exact decoder.rank_lt s buffer item s' buffer' _h

/-- The items of a stream that comes in these reads, and the error it ends with, if any.
`bytesRemaining` is the error for bytes that are left at the end. -/
def framedRead (bytesRemaining : ε) (s : σ) (buffer : List β) :
    List (List β) → List ι × Option ε
  | [] =>
      match decoder.drain s buffer with
      | (items, some e, _) => (items, some e)
      | (items, none, _, []) => (items, none)
      | (items, none, _, _ :: _) => (items, some bytesRemaining)
  | read :: reads =>
      match decoder.drain s (buffer ++ read) with
      | (items, some e, _) => (items, some e)
      | (items, none, s', buffer') =>
          let rest := framedRead bytesRemaining s' buffer' reads
          (items ++ rest.1, rest.2)

end Decoder

/-- The relation foretells the items of a decoder from its state and the bytes that are to come:
those in the buffer and those that are not read yet. -/
structure Anticipates (Expects : σ → List β → List ι → Prop) : Prop where
  item : ∀ {s : σ} {buffer rest : List β} {items : List ι} {i : ι} {s' : σ} {buffer' : List β},
    Expects s (buffer ++ rest) items → decoder.decode s buffer = (.ok (some i), s', buffer') →
      ∃ items', items = i :: items' ∧ Expects s' (buffer' ++ rest) items'
  more : ∀ {s : σ} {buffer rest : List β} {items : List ι} {s' : σ} {buffer' : List β},
    Expects s (buffer ++ rest) items → decoder.decode s buffer = (.ok none, s', buffer') →
      Expects s' (buffer' ++ rest) items
  /-- When everything has been read, a decoder that asks for more has no item left. -/
  last : ∀ {s : σ} {buffer : List β} {items : List ι} {s' : σ} {buffer' : List β},
    Expects s buffer items → decoder.decode s buffer = (.ok none, s', buffer') → items = []
  error : ∀ {s : σ} {buffer rest : List β} {items : List ι} {e : ε} {s' : σ} {buffer' : List β},
    Expects s (buffer ++ rest) items → decoder.decode s buffer = (.error e, s', buffer') → items = []

namespace Anticipates

variable {decoder} {Expects : σ → List β → List ι → Prop} (h : Anticipates decoder Expects)

include h in
/-- Draining gives items from the front, and all of them when it fails or everything was read. -/
theorem drain_spec (s : σ) (buffer rest : List β) (items : List ι)
    (hexpects : Expects s (buffer ++ rest) items) :
    ∃ later, items = (decoder.drain s buffer).1 ++ later ∧
      ((decoder.drain s buffer).2.1 ≠ none → later = []) ∧ (rest = [] → later = []) ∧
      ((decoder.drain s buffer).2.1 = none →
        Expects (decoder.drain s buffer).2.2.1 ((decoder.drain s buffer).2.2.2 ++ rest) later) := by
  induction hrank : decoder.rank s buffer using Nat.strong_induction_on
    generalizing s buffer items with
  | _ rank ih =>
      rw [Decoder.drain]
      split
      · rename_i hdecode
        rw [h.error hexpects hdecode]
        exact ⟨[], rfl, fun _ => rfl, fun _ => rfl, fun herror => absurd herror (by simp)⟩
      · rename_i hdecode
        refine ⟨items, rfl, fun herror => absurd rfl herror, ?_, fun _ => h.more hexpects hdecode⟩
        rintro rfl
        rw [List.append_nil] at hexpects
        exact h.last hexpects hdecode
      · rename_i item s' buffer' hdecode
        obtain ⟨items', rfl, hexpects'⟩ := h.item hexpects hdecode
        have hlt := decoder.rank_lt s buffer item s' buffer' hdecode
        obtain ⟨later, hitems, herror, hlast, hlater⟩ :=
          ih _ (by omega) s' buffer' items' hexpects' rfl
        exact ⟨later, by rw [hitems, List.cons_append], herror, hlast, hlater⟩

include h in
/-- The items of a stream are those foretold, whatever its reads are. -/
theorem framedRead_eq (bytesRemaining : ε) (s : σ) (buffer : List β) (reads : List (List β))
    (items : List ι) (hexpects : Expects s (buffer ++ reads.flatten) items) :
    (decoder.framedRead bytesRemaining s buffer reads).1 = items := by
  induction reads generalizing s buffer items with
  | nil =>
      obtain ⟨later, hitems, -, hlast, -⟩ := h.drain_spec s buffer [] items hexpects
      rw [hlast rfl, List.append_nil] at hitems
      rw [hitems, Decoder.framedRead]
      split
      · rename_i hdrain
        rw [hdrain]
      · rename_i hdrain
        rw [hdrain]
      · rename_i hdrain
        rw [hdrain]
  | cons read reads ih =>
      rw [List.flatten_cons, ← List.append_assoc] at hexpects
      obtain ⟨later, hitems, herror, -, hlater⟩ :=
        h.drain_spec s (buffer ++ read) reads.flatten items hexpects
      rw [Decoder.framedRead]
      split
      · rename_i hdrain
        rw [hdrain] at hitems herror
        rw [hitems, herror (by simp), List.append_nil]
      · rename_i s' buffer' hdrain
        rw [hdrain] at hitems hlater
        dsimp only at hitems hlater ⊢
        rw [hitems, ih s' buffer' later (hlater rfl)]

end Anticipates

end Ferron.Lib.Codec
