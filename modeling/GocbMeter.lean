import GocbMeter.Histogram
import GocbMeter.BinIndex
import GocbMeter.Snapshot
import GocbMeter.HistogramRun
import GocbMeter.Meter
import GocbMeter.Run
import GocbMeter.Logger
import GocbMeter.Interleaving
import GocbMeter.Conservation
import GocbMeter.Sequential
import GocbMeter.Interval
import GocbMeter.Content
import GocbMeter.System
import GocbMeter.Staleness
import GocbMeter.PsError
import GocbMeter.Analytics
