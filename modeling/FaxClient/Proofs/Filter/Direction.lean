import FaxClient.Filter.Direction
import FaxClient.Proofs.Filter.LineEnding

/-!
# What the filters of a transfer give

Inbound, octets are decompressed and their line endings contracted; outbound, line endings are
expanded and the result is compressed.  These are the same as functions on octets as a whole.
-/

namespace FaxClient

/-- What a representation makes of octets on their way out. -/
def Representation.outward : Representation → Octets → Octets
  | .image => id
  | .ascii => LineEnding.expand

/-- What a representation makes of octets on their way in. -/
def Representation.inward : Representation → Octets → Octets
  | .image => id
  | .ascii => LineEnding.contract

/-- What a mode makes of octets on their way in, given what they inflate to. -/
def Mode.inward (inflated : Octets → Octets) : Mode → Octets → Octets
  | .stream => id
  | .compressed => inflated

/-- What a codec compresses is decompressed to what it was, whatever the chunks on either side. -/
def Codec.Lossless (codec : Codec) : Prop :=
  ∀ chunks stream, codec.compressor.run chunks = .ok stream →
    ∀ pieces : List Octets, pieces.flatten = stream →
      codec.decompressor.run pieces = .ok chunks.flatten

namespace Filter

theorem inbound_follows {codec : Codec} {inflated : Octets → Octets}
    (hinflated : codec.decompressor.Follows inflated) (r : Representation) (m : Mode) :
    (inbound codec r m).Follows (r.inward ∘ m.inward inflated) := by
  cases r with
  | image =>
    cases m with
    | stream => exact identity_follows
    | compressed => exact hinflated
  | ascii =>
    cases m with
    | stream => exact LineEnding.decoder_follows
    | compressed => exact hinflated.andThen LineEnding.decoder_follows

theorem outbound_stream_follows (codec : Codec) (r : Representation) :
    (outbound codec r .stream).Follows r.outward := by
  cases r with
  | image => exact identity_follows
  | ascii => exact LineEnding.encoder_follows

theorem outbound_compressed_decompresses {codec : Codec} (hcodec : codec.Lossless)
    {r : Representation} {chunks : List Octets} {stream : Octets}
    (h : (outbound codec r .compressed).run chunks = .ok stream) {pieces : List Octets}
    (hpieces : pieces.flatten = stream) :
    codec.decompressor.run pieces = .ok (r.outward chunks.flatten) := by
  cases r with
  | image => exact hcodec chunks stream h pieces hpieces
  | ascii =>
    obtain ⟨mids, hmids, hstream⟩ := run_andThen h
    rw [hcodec mids stream hstream pieces hpieces, LineEnding.encoder_follows.run_eq hmids]
    rfl

end Filter

end FaxClient
