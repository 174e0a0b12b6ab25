import Adaboot.Image.Header

/-!
# Packed images

How the signing tool (`imgtool`) lays an image out: header, body, the info header of the TLVs and
the records. Only images without protected TLVs are built here.
-/

namespace Adaboot

def put16 (n : Nat) : Bytes := [.ofNat n, .ofNat (n / 256)]

def put32 (n : Nat) : Bytes := put16 n ++ put16 (n / 65536)

theorem le16_put16 {n : Nat} (lt : n < 65536) (rest : Bytes) : le16 (put16 n ++ rest) 0 = n := by
  simp [le16, put16]
  omega

theorem le32_put32 {n : Nat} (lt : n < 2 ^ 32) : le32 (put32 n) 0 = n := by
  simp [le32, le16, put32, put16]
  omega

def tlvRecord (type : Nat) (payload : Bytes) : Bytes := put16 type ++ put16 payload.length ++ payload

/-- Header and body: what the digest of a packed image covers. -/
def packHeader (body : Bytes) : Bytes :=
  put32 imageMagic.toNat ++ put32 0 ++ put16 imageHeaderSize ++ put16 0 ++ put32 body.length ++
    List.replicate 16 0 ++ body

def packImage (body records : Bytes) : Bytes := packHeader body ++ put16 0x6907 ++ put16 (4 + records.length) ++ records

def FlashArea.ofBytes (data : Bytes) (lt : data.length < 2 ^ 32) : FlashArea :=
  ⟨data.length, fun i => data.getD i Nor.erasedVal, lt⟩

/-- A digest that is easy to compute: the sum of the bytes, repeated. -/
def sumDigest (data : Bytes) : Bytes := List.replicate 32 (data.foldl (· + ·) 0)

end Adaboot
