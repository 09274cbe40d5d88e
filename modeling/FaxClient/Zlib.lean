import FaxClient.Zlib.Deflate
import FaxClient.Zlib.Inflate

/-!
# The zlib format

Compression and decompression of streams with a two-octet header and a checksum.
-/

namespace FaxClient

def zlib : Codec := ⟨Zlib.deflate, Zlib.inflate⟩

end FaxClient
