import Std.Data.HashMap
import UtxoConsensus.Digest.Sha256
import UtxoConsensus.Spend.Checker

/-!
# The signature cache

Verifying a signature is slow, and most signatures are met twice: when a transaction is relayed, and
when it appears in a block. The cache remembers those that were good. It has a fixed number of
slots. An entry is a hash, has eight slots to be in, and may push another entry on to one of its own
other slots; the last one pushed is lost.
-/

namespace UtxoConsensus

/-! ## Cuckoo sets -/

/-- A slot that has been filled. -/
structure CuckooSlot where
  entry : Hash256
  /-- The slot counts as free, although its entry can still be found. -/
  released : Bool
deriving DecidableEq

/-- A set of hashes in a fixed number of slots; slots that were never filled take no room. -/
structure CuckooSet where
  size : Nat
  slots : Std.HashMap Nat CuckooSlot

namespace CuckooSet

def slotsPerEntry : Nat := 8

/-- The empty set with room for the given number of entries, at least two. -/
def withCapacity (elements : Nat) : CuckooSet :=
  ⟨Nat.max elements 2, ∅⟩

/-- The number of entries that one insertion may move: the number of binary digits of the size. -/
def depthLimit (s : CuckooSet) : Nat :=
  s.size.log2 + 1

/-- The slots that an entry may be in: each of its eight 32-bit words, scaled to the size. -/
def locations (s : CuckooSet) (entry : Hash256) : List Nat :=
  (Bytes.blocks 4 entry.bytes).map fun word ↦ Bytes.toNat word * s.size / UInt32.size

def holds (s : CuckooSet) (entry : Hash256) (location : Nat) : Bool :=
  (s.slots[location]?).any (·.entry == entry)

def isFree (s : CuckooSet) (location : Nat) : Bool :=
  (s.slots[location]?).all (·.released)

def put (s : CuckooSet) (location : Nat) (entry : Hash256) : CuckooSet :=
  { s with slots := s.slots.insert location ⟨entry, false⟩ }

def release (s : CuckooSet) (location : Nat) : CuckooSet :=
  { s with slots := s.slots.modify location fun slot ↦ { slot with released := true } }

/-- Is an entry in the set? If it is, its slot may be released for other entries. -/
def contains (s : CuckooSet) (entry : Hash256) (erase : Bool) : Bool × CuckooSet :=
  match (s.locations entry).find? (s.holds entry) with
  | some location => (true, if erase then s.release location else s)
  | none => (false, s)

/-- The slot that an entry takes from another: the one after the slot that it was itself driven
from, so that repeated moves try all of them. -/
def nextLocation (locations : List Nat) (last : Nat) : Nat :=
  let next := (locations.idxOf? last).elim 0 fun i ↦ (i + 1) % slotsPerEntry
  locations.getD next 0

/-- Puts an entry into its first slot that is free or already holds it. If there is none it takes
the place of another entry, which is inserted in turn, `depth` times at most. -/
def insertFrom (s : CuckooSet) (entry : Hash256) (last : Nat) : (depth : Nat) → CuckooSet
  | 0 => s
  | depth + 1 =>
    let locations := s.locations entry
    match locations.find? (fun location ↦ s.isFree location || s.holds entry location) with
    | some location => s.put location entry
    | none =>
      let next := nextLocation locations last
      match s.slots[next]? with
      | some slot => insertFrom (s.put next entry) slot.entry next depth
      | none => s.put next entry

def insert (s : CuckooSet) (entry : Hash256) : CuckooSet :=
  s.insertFrom entry ((s.locations entry).headD 0) s.depthLimit

end CuckooSet

/-! ## The cache -/

/-- The signatures that are known to be good. The nonce keeps others from choosing signatures whose
entries collide. -/
structure SignatureCache where
  nonce : Hash256
  set : CuckooSet

namespace SignatureCache

def defaultMiB : Nat := 32

def maxMiB : Nat := 16384

/-- The empty cache with the given size in MiB; every entry takes 32 bytes. -/
def ofMiB (nonce : Hash256) (mib : Nat) : SignatureCache :=
  ⟨nonce, .withCapacity (Nat.min mib maxMiB * 1048576 / 32)⟩

def capacity (c : SignatureCache) : Nat :=
  c.set.size

/-- What is remembered of a good signature. -/
def entry (c : SignatureCache) (message : Hash256) (key sig : Bytes) : Hash256 :=
  Digest.sha256 (c.nonce.bytes ++ message.bytes ++ key ++ sig)

def get (c : SignatureCache) (entry : Hash256) (erase : Bool) : Bool × SignatureCache :=
  let r := c.set.contains entry erase
  (r.1, { c with set := r.2 })

def insert (c : SignatureCache) (entry : Hash256) : SignatureCache :=
  { c with set := c.set.insert entry }

end SignatureCache

/-! ## Checkers with a cache -/

namespace Checker

/-- Verifies a signature that is not in the cache. With `store` a good one is inserted, and without
it a hit releases its slot, as the signature will hardly be met again. -/
def cachedVerify (inner : Bytes → Bytes → Hash256 → StateM σ Bool) (store : Bool)
    (sig key : Bytes) (message : Hash256) : StateM (σ × SignatureCache) Bool := do
  let (state, cache) ← get
  let entry := cache.entry message key sig
  let (hit, cache) := cache.get entry (!store)
  if hit then
    set (state, cache)
    return true
  else
    let (good, state) := (inner sig key message).run state
    set (state, if good && store then cache.insert entry else cache)
    return good

/-- A checker that asks the cache before it verifies. -/
def caching (inner : Checker σ) (store : Bool) : Checker (σ × SignatureCache) where
  verifySignature := cachedVerify inner.verifySignature store
  digest? := inner.digest?
  checkSig sig key scriptCode flags :=
    checkDigest (cachedVerify inner.verifySignature store) (inner.digest? sig scriptCode flags) sig
      key
  checkLockTime := inner.checkLockTime
  checkSequence := inner.checkSequence
  context := inner.context

end Checker

end UtxoConsensus
