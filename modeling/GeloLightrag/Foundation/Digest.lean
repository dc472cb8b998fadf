import GeloLightrag.Foundation.Bytes

namespace Foundation

-- A hash of which nothing but its being a function is used.
class Sha256 where
  digest : Bytes → Bytes

-- A stand-in that can be run.
@[reducible] def Sha256.folded : Sha256 := ⟨fun bytes => (List.range 32).map fun i => (bytes.drop i).foldl (· + ·) 0⟩

-- Another, which keeps the residue of its input by a prime.
@[reducible] def Sha256.residue : Sha256 := ⟨fun bytes => leBytes 32 (ofLeBytes bytes % (2 ^ 255 - 19))⟩

theorem Sha256.residue_length (bytes : Bytes) : (Sha256.residue.digest bytes).length = 32 := leBytes_length 32 _

-- HMAC over SHA-256 of a message under a key.
class HmacSha256 where
  mac : Bytes → Bytes → Bytes

@[reducible] def HmacSha256.joined : HmacSha256 := ⟨fun key message => (key ++ message).take 32⟩

-- HKDF over SHA-256: salt, input key, info and the length asked for.
class HkdfSha256 where
  derive : Bytes → Bytes → Bytes → Nat → Bytes

@[reducible] def HkdfSha256.joined : HkdfSha256 := ⟨fun salt ikm info len => (salt ++ ikm ++ info ++ List.replicate len 0).take len⟩

end Foundation
