/-
# The identity of a node

A node has a private key, which libp2p decodes to a key pair with a public key.  What a node signs is
not modelled; its peer identifier is that of its public key.  Overlay addresses are spelled in base 32;
of that encoding it is only assumed what `Crockford` says.
-/
import P2pVpn.Checkpoint.State

namespace P2pVpn.Checkpoint

open Lib P2pVpn.Membership

/-- A key pair of libp2p, as far as it is looked at; `K` is the type of public keys. -/
structure Keypair (K : Type) where
  /-- `Keypair::public`. -/
  publicKey : K

structure NodeIdentity where
  peerId : String
  privateKey : String
deriving DecidableEq, Repr

/-- An encoding of bytes that can take the place of `base32::encode` with the Crockford alphabet. -/
structure Crockford where
  encode : List UInt8 → List Char
  length : ∀ bytes, (encode bytes).length = (8 * bytes.length + 4) / 5
  alphanumeric : ∀ bytes, ∀ c ∈ encode bytes, c.isAlphanum = true
  /-- Strings of one length are told apart, whatever the case of the letters. -/
  injective : ∀ a b, a.length = b.length →
    (encode a).map Char.toLower = (encode b).map Char.toLower → a = b

/-- The third-party code that reads private keys and spells overlay addresses. -/
structure SigningPlatform (T K : Type) extends CheckpointPlatform T K where
  /-- `Keypair::from_protobuf_encoding`. -/
  keypairFromProtobuf : List UInt8 → Option (Keypair K)
  crockford : Crockford

variable {T K : Type} [DecidableEq T] (env : SigningPlatform T K)

namespace NodeIdentity

def keypair (identity : NodeIdentity) : Except IdentityError (Keypair K) :=
  match env.base64Decode identity.privateKey with
  | none => throw .base64
  | some bytes =>
      match env.keypairFromProtobuf bytes with
      | none => throw .libp2p
      | some keypair => pure keypair

end NodeIdentity

end P2pVpn.Checkpoint
