import HostArduino.Bus.Analog
import HostArduino.Bus.Attach
import HostArduino.Bus.Defaults
import HostArduino.Bus.FreshAttach
import HostArduino.Bus.Ledc
import HostArduino.Bus.Output
import HostArduino.Bus.Refusal
import HostArduino.Bus.Sharing
import HostArduino.Bus.SlotStep
import HostArduino.Bus.TonePin
import HostArduino.Bus.Trace
import HostArduino.Bus.WellFormed
import HostArduino.Bus.WriteChannel
import HostArduino.Clock.Delay
import HostArduino.Clock.HostClock
import HostArduino.EspTimer.Delete
import HostArduino.EspTimer.Firing
import HostArduino.EspTimer.Rate
import HostArduino.EspTimer.Starts
import HostArduino.EspTimer.Timer
import HostArduino.FS.Absolute
import HostArduino.FS.Confinement
import HostArduino.FS.Copy
import HostArduino.FS.Directories
import HostArduino.FS.FS
import HostArduino.FS.File
import HostArduino.FS.FileSystem
import HostArduino.FS.Listing
import HostArduino.FS.MakeDirectories
import HostArduino.FS.Mounted
import HostArduino.FS.Partitions
import HostArduino.FS.Path
import HostArduino.FS.ReadBack
import HostArduino.FS.Refusal
import HostArduino.FS.Streams
import HostArduino.FS.Volume
import HostArduino.FS.Volumes
import HostArduino.FreeRTOS.Counting
import HostArduino.FreeRTOS.DelayUntil
import HostArduino.FreeRTOS.MutualExclusion
import HostArduino.FreeRTOS.Notify
import HostArduino.FreeRTOS.NotifyWakeups
import HostArduino.FreeRTOS.Queue
import HostArduino.FreeRTOS.QueueContents
import HostArduino.FreeRTOS.QueueWakeups
import HostArduino.FreeRTOS.Semaphore
import HostArduino.FreeRTOS.SemaphoreWakeups
import HostArduino.FreeRTOS.StrayGive
import HostArduino.FreeRTOS.Ticks
import HostArduino.Http.Body
import HostArduino.Http.Chunked
import HostArduino.Http.Client
import HostArduino.Http.Decode
import HostArduino.Http.Exchange
import HostArduino.Http.Framing
import HostArduino.Http.HTTPClient
import HostArduino.Http.Head
import HostArduino.Http.HeadFields
import HostArduino.Http.Injection
import HostArduino.Http.Location
import HostArduino.Http.Message
import HostArduino.Http.Origin
import HostArduino.Http.Reading
import HostArduino.Http.Redirect
import HostArduino.Http.Request
import HostArduino.Http.Response
import HostArduino.Http.Segmentation
import HostArduino.Http.Stall
import HostArduino.Http.Text
import HostArduino.Http.Url
import HostArduino.Http.WaitData
import HostArduino.Interrupt.Depth
import HostArduino.Interrupt.HostInterrupt
import HostArduino.Interrupt.Invocation
import HostArduino.Lib.BoundedQueue
import HostArduino.Lib.CondVar
import HostArduino.Lib.Descriptors
import HostArduino.Lib.Dialogue
import HostArduino.Lib.EventMachine
import HostArduino.Lib.Feed
import HostArduino.Lib.Leftmost
import HostArduino.Lib.Lines
import HostArduino.Lib.LittleEndian
import HostArduino.Lib.Mealy
import HostArduino.Lib.Monitor
import HostArduino.Lib.Nesting
import HostArduino.Lib.Pieces
import HostArduino.Lib.Search
import HostArduino.Lib.SharedPtr
import HostArduino.Lib.Signalled
import HostArduino.Lib.Spans
import HostArduino.Lib.Staging
import HostArduino.Lib.Stdio
import HostArduino.Lib.Threads
import HostArduino.Lib.Traced
import HostArduino.Lib.Tree
import HostArduino.Lib.Wakeups
import HostArduino.Lib.While
import HostArduino.Preferences.Preferences
import HostArduino.Preferences.SharedMap
import HostArduino.Preferences.TypedMap
import HostArduino.Preferences.ValueTypes
import HostArduino.Print.Digits
import HostArduino.Print.Format
import HostArduino.Print.Print
import HostArduino.Runtime.Delivery
import HostArduino.Runtime.InfoFile
import HostArduino.Runtime.Input
import HostArduino.Runtime.Launcher
import HostArduino.Runtime.Lifecycle
import HostArduino.Runtime.Output
import HostArduino.Runtime.Process
import HostArduino.Runtime.Serial
import HostArduino.Runtime.Server
import HostArduino.Runtime.Shutdown
import HostArduino.SPI.SPIClass
import HostArduino.SPI.Transfers
import HostArduino.Stream.Find
import HostArduino.Stream.FullWait
import HostArduino.Stream.ParseInt
import HostArduino.Stream.Timed
import HostArduino.Stream.Until
import HostArduino.Uart.Bulk
import HostArduino.Uart.Conservation
import HostArduino.Uart.HostUart
import HostArduino.Uart.Overflow
import HostArduino.WString.Replace
import HostArduino.Wifi.AddressText
import HostArduino.Wifi.Connection
import HostArduino.Wifi.Datagrams
import HostArduino.Wifi.IPAddress
import HostArduino.Wifi.Secure
import HostArduino.Wifi.Sockets
import HostArduino.Wifi.UdpNetwork
import HostArduino.Wifi.WiFiClient
import HostArduino.Wire.Receive
import HostArduino.Wire.RequestFrom
import HostArduino.Wire.Transmission
import HostArduino.Wire.TwoWire
