import RingCache.Bytes
import RingCache.Text.Quoted

namespace RingCache

structure NodeId where
  name : String
  deriving DecidableEq, Repr, Inhabited

namespace NodeId

instance : ToString NodeId := ⟨NodeId.name⟩

def compare (a b : NodeId) : Ordering := compareOfLessAndEq a.name b.name

def detailed (id : NodeId) : String := s!"NodeId({Text.quoted id.name})"

def marked (octets : Bytes) : Bytes :=
  octets.zipIdx.map fun (octet, place) =>
    if place = 6 then (octet &&& 0x0F) ||| 0x40
    else if place = 8 then (octet &&& 0x3F) ||| 0x80
    else octet

def ofRandom (octets : Bytes) : NodeId :=
  let digits := Bytes.hex (marked octets)
  let part (start stop : Nat) := String.ofList ((digits.toList.take stop).drop start)
  ⟨"-".intercalate [part 0 8, part 8 12, part 12 16, part 16 20, part 20 32]⟩

end NodeId

end RingCache
