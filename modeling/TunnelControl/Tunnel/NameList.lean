import TunnelControl.Text.Utf8

/-!
Names as one byte string: each name ends with a zero, and an empty name ends the list.
-/

namespace TunnelControl.NameList

def encode (names : List String) : Bytes :=
  (names.flatMap fun name => Utf8.encode name ++ [0]) ++ [0]

def parts : Bytes → List Bytes
  | [] => [[]]
  | byte :: rest =>
      if byte = 0 then [] :: parts rest
      else
        match parts rest with
        | part :: more => (byte :: part) :: more
        | [] => [[byte]]

def decode (data : Bytes) : List String :=
  ((parts data).takeWhile (· ≠ [])).map Utf8.decodeLossy

end TunnelControl.NameList
