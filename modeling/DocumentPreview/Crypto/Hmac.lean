import DocumentPreview.Crypto.Sha256

namespace DocumentPreview.Hmac

def blockKey (key : Bytes) : Bytes :=
  let k := if key.length ≤ 64 then key else Sha256.hash key
  k ++ List.replicate (64 - k.length) 0

def sign (key message : Bytes) : Bytes :=
  Sha256.hash ((blockKey key).map (· ^^^ 0x5C)
    ++ Sha256.hash ((blockKey key).map (· ^^^ 0x36) ++ message))

theorem sign_length (key message : Bytes) : (sign key message).length = 32 :=
  Sha256.hash_length _

end DocumentPreview.Hmac
