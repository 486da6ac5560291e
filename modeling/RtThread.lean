import RtThread.Proof.MemRuns
import RtThread.Proof.MemAccount
import RtThread.Proof.TimerOrder
import RtThread.Proof.SoftTimer
import RtThread.Proof.WaitOrder
import RtThread.Proof.Mutex
import RtThread.Proof.Preempt
import RtThread.Proof.MutexOwner
import RtThread.Proof.MutexGrant
import RtThread.Proof.Inherit
import RtThread.Proof.Semaphore
import RtThread.Proof.SemWake
import RtThread.Proof.Signal
import RtThread.Proof.WorkQueue
import RtThread.Proof.MemBlocks
import RtThread.Proof.Mailbox
import RtThread.Proof.Event
import RtThread.Proof.MemPool
import RtThread.Proof.MessageQueue
import RtThread.Proof.RingBuffer
import RtThread.Proof.Printf
import RtThread.Proof.MemheapRealloc
import RtThread.Proof.Completion
import RtThread.Proof.AtReader
import RtThread.Proof.DataQueue
import RtThread.Proof.PipeWake
import RtThread.Proof.AtSocket
import RtThread.Proof.WorkFlag
import RtThread.Proof.RingBlkQueue
import RtThread.Proof.AtClient
import RtThread.Proof.Modbus
import RtThread.Proof.ModbusRx
import RtThread.Proof.Onenet
import RtThread.Proof.DfsFd
import RtThread.Proof.DfsFs
import RtThread.Proof.Shell
import RtThread.Proof.Ymodem
import RtThread.Proof.YmodemLink
import RtThread.Proof.Pages
import RtThread.Proof.FinshHeap
import RtThread.Proof.FinshStrings
import RtThread.Proof.PthreadRwlockWake
import RtThread.Proof.PosixSem
import RtThread.Proof.SerialRx
import RtThread.Proof.SerialTx
import RtThread.Proof.Alarm
import RtThread.Proof.Ramfs
import RtThread.Proof.MemContents
import RtThread.Proof.MemSearch
import RtThread.Proof.MallocAlign
import RtThread.Proof.Kprintf
import RtThread.Proof.SignalWait
import RtThread.Proof.PrioQueue
import RtThread.Proof.PrintfText
import RtThread.Proof.MemheapRuns
import RtThread.Proof.Memheap
import RtThread.Proof.ModbusDecode
import RtThread.Proof.DfsOpen
import RtThread.Proof.AtReadline
import RtThread.Proof.AtAlloc
import RtThread.Proof.PipeTransfer
import RtThread.Proof.TimerLoop
import RtThread.Proof.TimerCheck
import RtThread.Spec.WorkCancel
import RtThread.Proof.WorkCancel
import RtThread.Spec.MemPrimitives
import RtThread.Proof.MemPrimitives
import RtThread.Spec.Ulog
import RtThread.Proof.UlogOutput
import RtThread.Proof.UlogFormat
import RtThread.Spec.ShellSplit
import RtThread.Proof.ShellSplit
import RtThread.Lib.Recent
import RtThread.Spec.ShellHistory
import RtThread.Proof.ShellHistory
import RtThread.Proof.FinshNames
import RtThread.Proof.FinshText
import RtThread.Proof.TimerSkip
import RtThread.Proof.VbusRing
