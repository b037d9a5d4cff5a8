import SecondBrain.Lib.Base64
import SecondBrain.Lib.Json

/-!
# Tokens of sealed bytes

A token is the salt of its key, the nonce it was sealed with and what was sealed, written
as one text. A reader takes a text of bounded length that is spelled as its bytes are
written, and long enough to hold a tag. So a text that is taken apart is the token of its
parts, and a token is taken apart unless it is too long.

Encryption is authenticated, and ideal relative to what has been issued: a ciphertext opens
only as what was sealed in it.
-/

namespace Lib

abbrev Bytes := List UInt8

/-! ## Texts as bytes -/

def utf8 (s : String) : Bytes := s.toUTF8.data.toList

def ofUtf8? (bytes : Bytes) : Option String := String.fromUTF8? ⟨bytes.toArray⟩

theorem ofUtf8?_utf8 (s : String) : ofUtf8? (utf8 s) = some s := by
  have h : (⟨(utf8 s).toArray⟩ : ByteArray) = s.toByteArray := rfl
  rw [ofUtf8?, h, String.fromUTF8?, dif_pos s.isValidUTF8]
  rfl

theorem utf8_injective {s t : String} (h : utf8 s = utf8 t) : s = t := by
  have hs := ofUtf8?_utf8 s
  rw [h, ofUtf8?_utf8] at hs
  exact (Option.some.inj hs).symm

theorem size_utf8Encode (text : List Char) : text.utf8Encode.size = Json.octets text := by
  induction text with
  | nil => rfl
  | cons c rest ih =>
      rw [List.utf8Encode_cons, ByteArray.size_append, ih, Json.octets_cons,
        List.utf8Encode_singleton, List.size_toByteArray, String.length_utf8EncodeChar]

theorem length_utf8_ofList (text : List Char) :
    (utf8 (String.ofList text)).length = Json.octets text := by
  rw [← size_utf8Encode, ← String.toByteArray_ofList]
  exact Array.length_toList

/-! ## Authenticated encryption -/

/-- Encryption under a key with a nonce, of a plaintext together with data that is only
authenticated. -/
structure Aead (Key : Type) where
  encrypt : Key → Bytes → Bytes → Bytes → Bytes
  decrypt : Key → Bytes → Bytes → Bytes → Option Bytes

/-- What was issued opens, nothing else does, and a tag of sixteen bytes is all that is
added. -/
structure Aead.Ideal {Key : Type} (a : Aead Key) (Issued : Key → Bytes → Bytes → Bytes → Prop) :
    Prop where
  opens : ∀ {k n p d}, Issued k n p d → a.decrypt k n (a.encrypt k n p d) d = some p
  authentic : ∀ {k n c d p}, a.decrypt k n c d = some p → c = a.encrypt k n p d ∧ Issued k n p d
  size : ∀ k n p d, (a.encrypt k n p d).length = p.length + 16

open Classical in
/-- An encryption that is ideal for what is issued. -/
noncomputable def Aead.idealOf {Key : Type} (Issued : Key → Bytes → Bytes → Bytes → Prop) :
    Aead Key where
  encrypt _ _ p _ := p ++ List.replicate 16 0
  decrypt k n c d :=
    if c = c.take (c.length - 16) ++ List.replicate 16 0 ∧ Issued k n (c.take (c.length - 16)) d
    then some (c.take (c.length - 16)) else none

/-- Whatever is issued, there is one. -/
theorem Aead.idealOf_ideal {Key : Type} (Issued : Key → Bytes → Bytes → Bytes → Prop) :
    (Aead.idealOf Issued).Ideal Issued where
  opens {k n p d} h := by
    have htake : (p ++ List.replicate 16 (0 : UInt8)).take
        ((p ++ List.replicate 16 (0 : UInt8)).length - 16) = p := by
      rw [List.length_append, List.length_replicate, Nat.add_sub_cancel]
      exact List.take_left' rfl
    dsimp only [Aead.idealOf]
    rw [htake, if_pos ⟨rfl, h⟩]
  authentic {k n c d p} h := by
    dsimp only [Aead.idealOf] at h ⊢
    split at h
    · rename_i hc
      obtain rfl := Option.some.inj h
      exact hc
    · cases h
  size k n p d := by
    dsimp only [Aead.idealOf]
    rw [List.length_append, List.length_replicate]

/-- Keys from a secret and a salt after so many rounds, and encryption under them. -/
structure Keyring where
  Key : Type
  derive : Bytes → Bytes → Nat → Key
  aead : Aead Key

/-! ## Tokens -/

def saltBytes : Nat := 16
def nonceBytes : Nat := 12
def tagBytes : Nat := 16

/-- The random bytes of one token. -/
structure RandomBytes where
  salt : Bytes
  nonce : Bytes
  salt_length : salt.length = saltBytes
  nonce_length : nonce.length = nonceBytes

structure Sealed extends RandomBytes where
  ciphertext : Bytes

def Keyring.seal (r : Keyring) (key : r.Key) (draw : RandomBytes) (payload aad : Bytes) : Sealed :=
  ⟨draw, r.aead.encrypt key draw.nonce payload aad⟩

namespace Sealed

def bytes (s : Sealed) : Bytes := s.salt ++ s.nonce ++ s.ciphertext

def token (s : Sealed) : String := String.ofList (Base64.encode s.bytes)

/-- The parts of a text that is not too long. -/
def read (value : String) (maximum : Nat) : Option Sealed :=
  if value = "" ∨ maximum < value.length then none
  else
    match Base64.decode (Base64.padded value.toList) with
    | none => none
    | some raw =>
        if String.ofList (Base64.encode raw) ≠ value then none
        else if h : saltBytes + nonceBytes + tagBytes < raw.length then
          some ⟨⟨raw.take saltBytes, (raw.drop saltBytes).take nonceBytes,
            by rw [List.length_take]; omega,
            by rw [List.length_take, List.length_drop]; omega⟩,
            raw.drop (saltBytes + nonceBytes)⟩
        else none

theorem length_bytes (s : Sealed) : s.bytes.length = 28 + s.ciphertext.length := by
  rw [bytes, List.length_append, List.length_append, s.salt_length, s.nonce_length]
  rfl

theorem length_token (s : Sealed) :
    s.token.length = (4 * (28 + s.ciphertext.length) + 2) / 3 := by
  rw [token, String.length_ofList, Base64.length_encode, length_bytes]

/-- A text that is taken apart is the token of its parts. -/
theorem token_of_read {value : String} {maximum : Nat} {s : Sealed}
    (h : read value maximum = some s) :
    value = s.token ∧ value.length ≤ maximum ∧ tagBytes < s.ciphertext.length := by
  unfold read at h
  split at h
  · cases h
  rename_i hbound
  split at h
  · cases h
  rename_i raw hraw
  split at h
  · cases h
  rename_i hcanonical
  split at h
  · rename_i hlength
    obtain rfl := Option.some.inj h
    have hbytes : raw.take saltBytes ++ (raw.drop saltBytes).take nonceBytes ++
        raw.drop (saltBytes + nonceBytes) = raw := by
      rw [List.append_assoc, ← List.drop_drop, List.take_append_drop, List.take_append_drop]
    have hcipher : (raw.drop (saltBytes + nonceBytes)).length =
        raw.length - (saltBytes + nonceBytes) := List.length_drop
    refine ⟨?_, by omega, by dsimp only; omega⟩
    rw [token, bytes, hbytes]
    exact (not_not.mp hcanonical).symm
  · cases h

/-- A token is taken apart where it is short enough. -/
theorem read_token {s : Sealed} {maximum : Nat} (htag : tagBytes < s.ciphertext.length)
    (h : s.token.length ≤ maximum) : read s.token maximum = some s := by
  have hlength := s.length_bytes
  have hne : s.token ≠ "" := by
    intro hempty
    have hzero : s.token.length = 0 := by rw [hempty]; rfl
    rw [length_token] at hzero
    omega
  have hsalt : s.bytes.take saltBytes = s.salt := by
    rw [bytes, List.append_assoc, List.take_left' s.salt_length]
  have hnonce : (s.bytes.drop saltBytes).take nonceBytes = s.nonce := by
    rw [bytes, List.append_assoc, List.drop_left' s.salt_length, List.take_left' s.nonce_length]
  have hcipher : s.bytes.drop (saltBytes + nonceBytes) = s.ciphertext := by
    rw [bytes, List.drop_left']
    rw [List.length_append, s.salt_length, s.nonce_length]
  have hlong : saltBytes + nonceBytes + tagBytes < s.bytes.length := by
    simp only [saltBytes, nonceBytes, tagBytes] at htag ⊢
    omega
  have hdecode : Base64.decode (Base64.padded s.token.toList) = some s.bytes := by
    rw [token, String.toList_ofList, Base64.decode_encode]
  unfold read
  rw [if_neg (fun hor => hor.elim hne fun hlt => absurd h (Nat.not_le.mpr hlt)), hdecode]
  dsimp only
  have hcanonical : ¬ String.ofList (Base64.encode s.bytes) ≠ s.token := fun hne => hne rfl
  rw [if_neg hcanonical, dif_pos hlong]
  congr 1
  obtain ⟨⟨salt, nonce, hs, hn⟩, ciphertext⟩ := s
  simp only [hsalt, hnonce, hcipher]

theorem read_long {value : String} {maximum : Nat} (h : maximum < value.length) :
    read value maximum = none := if_pos (Or.inr h)

end Sealed

end Lib
