import HostArduino.Lib.Mealy
import HostArduino.Uart.HostUart

namespace HostArduino.host_uart

open Lib

theorem add_ofNat_add (total : UInt32) (m n : Nat) :
    total + UInt32.ofNat (m + n) = total + UInt32.ofNat m + UInt32.ofNat n := by
  rw [UInt32.ofNat_add, UInt32.add_assoc]

/-- The transmit side takes bytes until its queue is full. -/
def writeIntake : Intake HostUart UInt8 where
  take u bytes := ((u.writeBuffer (some bytes)).returns, (u.writeBuffer (some bytes)).uart)
  take_nil u := by simp [HostUart.writeBuffer, BoundedQueue.offer]
  take_append u xs ys := by
    simp only [HostUart.writeBuffer, BoundedQueue.offer_append, add_ofNat_add]
  take_le u xs := BoundedQueue.offer_count_le u.tx xs
  take_refused u xs ys hrefused := BoundedQueue.offer_refused hrefused ys

/-- And the receive side. -/
def pushIntake : Intake HostUart UInt8 where
  take u bytes := ((u.pushRx (some bytes)).returns, (u.pushRx (some bytes)).uart)
  take_nil u := by simp [HostUart.pushRx, BoundedQueue.offer]
  take_append u xs ys := by
    simp only [HostUart.pushRx, BoundedQueue.offer_append, add_ofNat_add]
  take_le u xs := BoundedQueue.offer_count_le u.rx xs
  take_refused u xs ys hrefused := BoundedQueue.offer_refused hrefused ys

/-- Calls with one byte each, on the bytes of a buffer in order: what they returned and
    what they left. -/
def eachByte (call : HostUart → UInt8 → Unlocked Nat) (u : HostUart) (bytes : List UInt8) :
    List Nat × HostUart :=
  Mealy.feed (fun u byte => ((call u byte).returns, (call u byte).uart)) u bytes

/-- A bulk `write` or `pushRx` leaves what calls with one byte each leave, queue, flag and
    total included, and returns the sum of what they return; they take the bytes up to
    the first one that is refused and none behind it. -/
theorem bulk_eq_eachByte (u : HostUart) (bytes : List UInt8) :
    let written := u.writeBuffer (some bytes)
    let pushed := u.pushRx (some bytes)
    (written.uart = (eachByte HostUart.write u bytes).2 ∧
      written.returns = (eachByte HostUart.write u bytes).1.sum ∧
      (eachByte HostUart.write u bytes).1 =
        List.replicate written.returns 1 ++ List.replicate (bytes.length - written.returns) 0) ∧
    (pushed.uart = (eachByte HostUart.pushRxByte u bytes).2 ∧
      pushed.returns = (eachByte HostUart.pushRxByte u bytes).1.sum ∧
      (eachByte HostUart.pushRxByte u bytes).1 =
        List.replicate pushed.returns 1 ++ List.replicate (bytes.length - pushed.returns) 0) := by
  intro written pushed
  have hsingle : eachByte HostUart.write u bytes = writeIntake.single.feed u bytes := by
    simp only [eachByte, HostUart.write_eq]
    rfl
  have hwrite := writeIntake.feed_single u bytes
  have hpush := pushIntake.feed_single u bytes
  refine ⟨?_, (congrArg Prod.snd hpush).symm, (pushIntake.sum_feed_single u bytes).symm,
    congrArg Prod.fst hpush⟩
  rw [hsingle]
  exact ⟨(congrArg Prod.snd hwrite).symm, (writeIntake.sum_feed_single u bytes).symm, congrArg Prod.fst hwrite⟩

end HostArduino.host_uart
