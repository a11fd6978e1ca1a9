import IceBridge.Eddy.TCPSession
import IceBridge.Lib.Bytes

/-! The filter of the tests: two bytes with the size of a message, then the message. -/

namespace IceBridge.Eddy

structure MyFilter where
  headerRead : Bool := false
  header : UInt16 := 0
  deriving DecidableEq

namespace MyFilter

def kHeaderSize : ℕ := 2

def bytesWannaWrite (_ : MyFilter) (messagesToBeSent : List (List UInt8)) : ℕ :=
  (messagesToBeSent.map fun message => kHeaderSize + message.length).sum

def encode (_ : MyFilter) (message : List UInt8) : List UInt8 :=
  Bytes.encode kHeaderSize message.length ++ message

def write (f : MyFilter) (messagesToBeSent : List (List UInt8)) :
    Option (MyFilter × List (List UInt8) × List UInt8) :=
  some (f, [], messagesToBeSent.flatMap f.encode)

def bytesWannaRead (f : MyFilter) : ℕ := if f.headerRead then f.header.toNat else kHeaderSize

def read (f : MyFilter) (buffer : List UInt8) : MyFilter × List (List UInt8) × ℕ :=
  if f.headerRead then ({ f with headerRead := false }, [buffer], f.header.toNat)
  else ({ headerRead := true, header := (Bytes.value (buffer.take kHeaderSize)).toUInt16 }, [],
    kHeaderSize)

end MyFilter

def myFilter : NetMessageFilter MyFilter (List UInt8) where
  bytesWannaWrite := MyFilter.bytesWannaWrite
  write := MyFilter.write
  bytesWannaRead := MyFilter.bytesWannaRead
  read := MyFilter.read

end IceBridge.Eddy
