import RemoteCall.Call
import RemoteCall.Proofs.Wire.Items
import RemoteCall.Proofs.Wire.RoundTrip

/-!
# Calls and replies that are read back

A call is carried when its method has a short name and its arguments are portable, a reply when its
value is. Which record types are known matters, but not who knows them.
-/

namespace RemoteCall

open Wire

variable {g g' : Registry}

/-- A call that crosses a connection and comes out as it went in. -/
structure Call.Portable (g : Registry) (c : Call) : Prop where
  isShort_method : IsShort c.method
  args : (Value.array Value.anyComponent c.args).Portable g

theorem Call.carries {c : Call} (h : c.Portable g) :
    Carries (·.ReadsFor g) (c.writer g) (Call.reader maxNesting) c := by
  have hsequence : c.sequence.toInt64.toUInt64 = c.sequence := UInt64.toUInt64_toInt64 ..
  have hargs := Carries.value h.args.allFit h.args.wireDepth_le
  refine (Carries.emit (Reader.number_append _)).bind ?_
  refine (Carries.nameString h.isShort_method).bind ?_
  refine (hargs.thenQuiet (.pure (Value.anyComponent, c.args))).thenQuiet ?_
  dsimp only
  rw [hsequence]
  exact .pure c

theorem Reply.carries {r : Reply} (h : r.value.Portable g) :
    Carries (·.ReadsFor g) (r.writer g) (Reply.reader maxNesting) r := by
  have hsequence : r.sequence.toInt64.toUInt64 = r.sequence := UInt64.toUInt64_toInt64 ..
  have hvalue := Carries.value h.allFit h.wireDepth_le
  refine (Carries.emit (Reader.number_append _)).bind ?_
  refine (Carries.emit (Reader.bool_append _)).bind ?_
  refine hvalue.thenQuiet ?_
  rw [hsequence]
  exact .pure r

theorem Reply.carries_sync {r : Reply} (h : r.value.Portable g)
    (hsync : r.sequence = syncSequence) :
    Carries (·.ReadsFor g) (r.writer g) (Reply.syncReader maxNesting) r := by
  refine (Reply.carries h).thenQuiet ?_
  rw [if_pos hsync]
  exact .pure r

theorem Call.writer_congr (h : g'.lookup? = g.lookup?) (c : Call) : c.writer g' = c.writer g := by
  rw [writer, writer, arrayWriter, arrayWriter, valueWriter_congr h]

theorem Reply.writer_congr (h : g'.lookup? = g.lookup?) (r : Reply) :
    r.writer g' = r.writer g := by
  rw [writer, writer, valueWriter_congr h]

end RemoteCall
