import EcranMagique.Lib.Clocked
import EcranMagique.Lib.SatWalk
import EcranMagique.Lib.Quadrature
import EcranMagique.Lib.Raster
import EcranMagique.Lib.Waveform
import EcranMagique.Lib.Hysteresis
import EcranMagique.Lib.Trace
import EcranMagique.EncoderManager
import EcranMagique.Dpram
import EcranMagique.HdmiControler
import EcranMagique.Display
import EcranMagique.Telecran
import EcranMagique.Nios
import EcranMagique.Encoder.Tracking
import EcranMagique.Encoder.Symmetry
import EcranMagique.Drawing.Erase
import EcranMagique.Drawing.FrameBuffer
import EcranMagique.Drawing.Address
import EcranMagique.Drawing.Press
import EcranMagique.Video.Synced
import EcranMagique.Video.Range
import EcranMagique.Video.Timing
import EcranMagique.Video.Coordinates
import EcranMagique.Video.ScanOut
import EcranMagique.Video.Recovery
import EcranMagique.Nios.Flip
import EcranMagique.Nios.Start
import EcranMagique.Lib.TwoWire
import EcranMagique.Lib.Retry
import EcranMagique.I2cHdmiConfig
import EcranMagique.Transmitter.Busy
import EcranMagique.Transmitter.Frame
import EcranMagique.Transmitter.Setup
import EcranMagique.Transmitter.Schedule
import EcranMagique.Transmitter.Restart
import EcranMagique.Transmitter.Clock
import EcranMagique.Lib.LastWrite
import EcranMagique.Memory.Ports
import EcranMagique.Video.Picture
import EcranMagique.Lib.Registers
import EcranMagique.AvalonI2c
import EcranMagique.AvalonI2c.Core
import EcranMagique.AvalonI2c.Progress
import EcranMagique.AvalonI2c.Command
import EcranMagique.AvalonI2c.Transmit
import EcranMagique.AvalonI2c.Receive
import EcranMagique.AvalonI2c.Retry
import EcranMagique.AvalonI2c.Occupied
import EcranMagique.AvalonI2c.Setup
import EcranMagique.Nios.Board
import EcranMagique.Lib.Prescaler
import EcranMagique.Leds
