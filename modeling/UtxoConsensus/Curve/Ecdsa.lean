import UtxoConsensus.Curve.Der
import UtxoConsensus.Curve.PublicKey
import UtxoConsensus.Digest.Sha256

/-!
# ECDSA

Verification and deterministic signing. The secret number of a signature is drawn from a generator
that is seeded with the secret key and the message, so that the same message always gets the same
signature.
-/

namespace UtxoConsensus.Curve

/-! ## Verification -/

def EcdsaSignature.verify (sig : EcdsaSignature) (key : Point) (message : Hash256) : Bool :=
  if isScalar sig.r && isScalar sig.s then
    let z := Bytes.toNatBig message.bytes % order
    let w := inverse order sig.s
    let u := (Jacobian.ofPoint generator).multiply (z * w % order)
    let v := (Jacobian.ofPoint key).multiply (sig.r * w % order)
    match (u.add v).toPoint? with
    | none => false
    | some point => point.x % order == sig.r
  else false

/-- Does a written signature sign the message under a written key? It is read leniently and may have
either of the two values for S. -/
def verifyEcdsa (sig key : Bytes) (message : Hash256) : Bool :=
  match Point.parse? key, EcdsaSignature.parseLax? sig with
  | some key, some sig => sig.normalize.verify key message
  | _, _ => false

/-- Is a written signature readable and its S the lower value? -/
def hasLowS (sig : Bytes) : Bool :=
  match EcdsaSignature.parseLax? sig with
  | some sig => sig.isLowS
  | none => false

/-! ## Deterministic nonces -/

/-- The generator of nonces: two hashes that are renewed with every draw. -/
structure NonceGenerator where
  key : Bytes
  value : Bytes

namespace NonceGenerator

/-- Renews both hashes, taking in a byte and perhaps a seed. -/
def stir (g : NonceGenerator) (input : Bytes) : NonceGenerator :=
  let key := (Digest.hmacSha256 g.key (g.value ++ input)).bytes
  ⟨key, (Digest.hmacSha256 key g.value).bytes⟩

def ofSeed (seed : Bytes) : NonceGenerator :=
  let start : NonceGenerator := ⟨List.replicate 32 0, List.replicate 32 1⟩
  (start.stir (0 :: seed)).stir (1 :: seed)

def draw (g : NonceGenerator) : NonceGenerator :=
  ⟨g.key, (Digest.hmacSha256 g.key g.value).bytes⟩

end NonceGenerator

/-! ## Signing -/

/-- The signature with a given nonce, if the nonce will do. -/
def signWith? (secret : Nat) (message : Hash256) (nonce : Nat) : Option EcdsaSignature := do
  let point ← generator.multiply? nonce
  let r := point.x % order
  let z := Bytes.toNatBig message.bytes % order
  let s := inverse order nonce * ((z + r * secret) % order) % order
  if r = 0 ∨ s = 0 then none else some (EcdsaSignature.normalize ⟨r, s⟩)

/-- Draws nonces until one will do, at most `attempts` of them. -/
def signDrawing? (secret : Nat) (message : Hash256) :
    (attempts : Nat) → NonceGenerator → Option EcdsaSignature
  | 0, _ => none
  | attempts + 1, g =>
    let drawn := g.draw
    match signWith? secret message (Bytes.toNatBig drawn.value) with
    | some sig => some sig
    | none => signDrawing? secret message attempts (drawn.stir [0])

/-- The seed of the nonces for a message, which is taken as a number below the order. -/
def nonceSeed (secret : Nat) (message : Hash256) : Bytes :=
  Bytes.ofNatBig 32 secret ++ Bytes.ofNatBig 32 (Bytes.toNatBig message.bytes % order)

/-- The signature of a message. A nonce fails with a probability below 2^-127, so that no message is
known that needs a second one. -/
def signEcdsa? (secret : Nat) (message : Hash256) : Option EcdsaSignature :=
  signDrawing? secret message 256 (.ofSeed (nonceSeed secret message))

end UtxoConsensus.Curve
