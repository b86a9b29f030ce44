/-
Hashing of typed structured data: the encoding of a struct by its type and its members.

A struct is its name with its members in order.  Its type is spelled out as text, `Name(type name,…)`;
a member is one word, and one of variable length is hashed first.  The domain is a struct of the fields
that are present.
-/
import Safenet.Lib.Bytes

namespace Eip712

/-- The values of members that are no structs themselves. -/
inductive Value where
  | uint (bits : Nat) (value : BitVec bits)
  | address (value : BitVec 160)
  | bytes32 (value : BitVec 256)
  | bytes (value : Bytes)
  | string (value : Bytes)

/-- A struct with its values. -/
structure Struct where
  name : String
  members : List (String × Value)

/-- The digits of a number. -/
def decimal (n : Nat) : Bytes := (Nat.toDigits 10 n).map fun c => BitVec.ofNat 8 c.toNat

/-- The name of the type of a value. -/
def Value.typeName : Value → Bytes
  | .uint bits _ => Bytes.ascii "uint" ++ decimal bits
  | .address _ => Bytes.ascii "address"
  | .bytes32 _ => Bytes.ascii "bytes32"
  | .bytes _ => Bytes.ascii "bytes"
  | .string _ => Bytes.ascii "string"

/-- `Name(type name,…)`. -/
def Struct.encodeType (struct : Struct) : Bytes :=
  Bytes.ascii struct.name ++ Bytes.ascii "(" ++
    List.intercalate (Bytes.ascii ",") (struct.members.map fun member =>
      member.2.typeName ++ Bytes.ascii " " ++ Bytes.ascii member.1) ++ Bytes.ascii ")"

section Hash

variable (keccak : Bytes → BitVec 256)

/-- The word of a value. -/
def Value.encode : Value → BitVec 256
  | .uint _ value => BitVec.ofNat 256 value.toNat
  | .address value => BitVec.ofNat 256 value.toNat
  | .bytes32 value => value
  | .bytes value => keccak value
  | .string value => keccak value

/-- The words of the members. -/
def Struct.encodeData (struct : Struct) : List (BitVec 256) := struct.members.map fun member =>
  member.2.encode keccak

def Struct.hashStruct (struct : Struct) : BitVec 256 :=
  keccak ((keccak struct.encodeType :: struct.encodeData keccak).flatMap Bytes.word)

/-- The fields of a domain, each of which can be missing. -/
structure Domain where
  name : Option Bytes
  version : Option Bytes
  chainId : Option (BitVec 256)
  verifyingContract : Option (BitVec 160)
  salt : Option (BitVec 256)

def Domain.struct (domain : Domain) : Struct where
  name := "EIP712Domain"
  members :=
    (domain.name.map fun value => ("name", Value.string value)).toList ++
      (domain.version.map fun value => ("version", Value.string value)).toList ++
      (domain.chainId.map fun value => ("chainId", Value.uint 256 value)).toList ++
      (domain.verifyingContract.map fun value => ("verifyingContract", Value.address value)).toList ++
      (domain.salt.map fun value => ("salt", Value.bytes32 value)).toList

def Domain.separator (domain : Domain) : BitVec 256 := domain.struct.hashStruct keccak

/-- What is signed for a struct under a domain. -/
def Struct.signingHash (struct : Struct) (domain : Domain) : BitVec 256 :=
  keccak ([0x19#8, 0x01#8] ++ [domain.separator keccak, struct.hashStruct keccak].flatMap Bytes.word)

end Hash

end Eip712
