import FaxClient.Filter.LineEnding
import FaxClient.Representation

/-!
# Filters of a transfer

Outbound, line endings are translated first and the result is compressed; inbound, the other way
about.
-/

namespace FaxClient.Filter

def isIdentity (r : Representation) (m : Mode) : Bool := r == .image && m == .stream

def outbound (codec : Codec) : Representation → Mode → Filter
  | .image, .stream => identity
  | .ascii, .stream => LineEnding.encoder
  | .image, .compressed => codec.compressor
  | .ascii, .compressed => LineEnding.encoder.andThen codec.compressor

def inbound (codec : Codec) : Representation → Mode → Filter
  | .image, .stream => identity
  | .ascii, .stream => LineEnding.decoder
  | .image, .compressed => codec.decompressor
  | .ascii, .compressed => codec.decompressor.andThen LineEnding.decoder

end FaxClient.Filter
