import IoHacks.Amd.Registers
import IoHacks.Lib.Mask
import IoHacks.Lib.Squeeze
import IoHacks.Amd.Proof.Arith
import IoHacks.Amd.Proof.Swap
import IoHacks.Amd.Proof.Channel
import IoHacks.Amd.Proof.Interleave
import IoHacks.Amd.Proof.Unbalanced
import IoHacks.Amd.Proof.Hoist
import IoHacks.Amd.Proof.ChipSelect
import IoHacks.Amd.Proof.RangeLoop
import IoHacks.Htu21.Bus
import IoHacks.Htu21.Common
import IoHacks.Htu21.LowLevel
import IoHacks.Htu21.Query
import IoHacks.Htu21.Proof.Discipline
import IoHacks.Htu21.Proof.Readings
import IoHacks.Htu21.Proof.Polling
import IoHacks.Htu21.Proof.Agreement
import IoHacks.Amd.Proof.PassedSwap
import IoHacks.Amd.Proof.Normalize
import IoHacks.Amd.Proof.Lines
import IoHacks.Amd.Main
import IoHacks.Amd.Proof.Missing
import IoHacks.Htu21.Proof.Decimal
import IoHacks.Htu21.Proof.Crc
import IoHacks.Mem.DevMem
import IoHacks.Mem.Gpio
import IoHacks.Mem.Proof.Gpio
import IoHacks.Mem.Ioapic
import IoHacks.Mem.Proof.IoapicWr
import IoHacks.Mem.Proof.Rdt
import IoHacks.Smb.TuneReg
import IoHacks.Smb.FanCalibrate
import IoHacks.Smb.Proof.TuneReg
import IoHacks.Smb.Proof.FanCalibrate
import IoHacks.Lib.Check
import IoHacks.Port.Sio
import IoHacks.Port.IntrMap
import IoHacks.Port.Proof.Tools
import IoHacks.Lib.Numeral
import IoHacks.Lib.Schedule
import IoHacks.Lib.Script
import IoHacks.Mem.Proof.Restore
import IoHacks.Port.Proof.Indexed
import IoHacks.Port.Proof.SuperIo
import IoHacks.Lib.Serve
import IoHacks.Htu21.Proof.Sensor
import IoHacks.Amd.EccInfo
import IoHacks.Amd.Proof.EccInfo
import IoHacks.Smb.Tools
import IoHacks.Smb.Proof.Device
import IoHacks.Smb.Proof.Tools
import IoHacks.Smb.Proof.Dump
import IoHacks.Smb.Proof.Table
import IoHacks.Lib.Backup
import IoHacks.Mem.Proof.GpioBackup
import IoHacks.Port.Proof.Backup
import IoHacks.Lib.Rely
import IoHacks.Mem.Proof.Shared
