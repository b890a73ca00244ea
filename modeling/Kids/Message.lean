import Kids.Util.Bytes

namespace Kids

@[ext]
structure Sds where
  data : Bytes
  len_lt : data.length < 2 ^ 31
  deriving DecidableEq

namespace Sds

def len (s : Sds) : Nat :=
  s.data.length

end Sds

@[ext]
structure Message where
  topic : Sds
  content : Sds
  deriving DecidableEq

namespace Message

-- the smallest messages that have something in both parts
def ofBytes (topic content : UInt8) : Message :=
  ⟨⟨[topic], by simp⟩, ⟨[content], by simp⟩⟩

def memory (m : Message) : Nat :=
  m.topic.len + m.content.len

end Message
end Kids
