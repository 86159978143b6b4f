import UtxoConsensus.Digest.Ripemd160
import UtxoConsensus.Digest.Sha1
import UtxoConsensus.Digest.Sha256

/-!
# The digests of the ledger

Besides the plain hash functions the ledger uses `doubleSha256` for identifiers and `hash160` for
short commitments to keys and scripts.
-/

namespace UtxoConsensus.Digest

/-- RIPEMD-160 of SHA-256, 20 bytes. -/
def hash160 (message : Bytes) : Bytes :=
  ripemd160 (sha256 message).bytes

@[simp] theorem length_hash160 (message : Bytes) : (hash160 message).length = 20 :=
  length_ripemd160 _

end UtxoConsensus.Digest
